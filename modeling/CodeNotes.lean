import CodeNotes.Unicode.Encode
import CodeNotes.Unicode.Utf32
import CodeNotes.Unicode.Utf16
import CodeNotes.Unicode.Utf8
import CodeNotes.Unicode.Locality
import CodeNotes.Unicode.Assembly
import CodeNotes.Binder.Calculator
import CodeNotes.Interrupt.Keyboard
import CodeNotes.Signal.Delivery
import CodeNotes.Signal.Application
import CodeNotes.Redis.Refinement
import CodeNotes.Redis.Listing
import CodeNotes.Redis.Screen
import CodeNotes.Redis.Report
import CodeNotes.Redis.Addressing
import CodeNotes.Pinch.Gestures
import CodeNotes.Gesture.Clicks
import CodeNotes.Gesture.Flipper
import CodeNotes.Fresco.EachPixel
import CodeNotes.Fresco.Scaled
import CodeNotes.MiniGrep.Search
import CodeNotes.HelloWorld.Largest
import CodeNotes.Lib.Buckets
import CodeNotes.Lib.ReverseCounter
import CodeNotes.RedisServer.Dict
import CodeNotes.RedisServer.DictInvariant
import CodeNotes.RedisServer.DictRefinement
import CodeNotes.RedisServer.DictScan
import CodeNotes.Lib.Decimal
import CodeNotes.RedisServer.Numbers
import CodeNotes.RedisServer.Request
import CodeNotes.Lib.Incremental
import CodeNotes.RedisServer.RequestSteps
import CodeNotes.RedisServer.Aof
import CodeNotes.RedisServer.AofRecords
import CodeNotes.RedisServer.AofReplay
import CodeNotes.RedisServer.AofCrash
import CodeNotes.RedisServer.AofRestart
import CodeNotes.RedisServer.RequestText
