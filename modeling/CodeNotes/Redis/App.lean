import Mathlib.Data.Finmap
import Mathlib.Tactic

/-!
# The page of the Redis demo

The component `App` of `frontend/src/App.tsx`.  A handler that sends a request runs in two parts:
up to its `await`, where it captures the inputs of the moment (`Suspended`), and from the response
on (`Suspended.resume`).  In between the user may do anything the page offers (`App.act`), start
further requests included.
-/

namespace CodeNotes.Redis

abbrev Text := List Char

def text (s : String) : Text := s.toList

abbrev KeyValue := Finmap fun _ : Text => Text

inductive OperationType where
  | insert
  | queryAll
  | queryByKey
  | deleteAll
  | deleteByKey
  deriving DecidableEq

/-- The state of the component. -/
structure App where
  operation : Option OperationType
  key : Text
  value : Text
  result : KeyValue
  message : Text

/-- A handler at its `await`, with the inputs its closure holds. -/
inductive Suspended where
  | handleSetKeyValue (key value : Text)
  | handleGetAllKeys
  | handleGetValueByKey (key : Text)
  | handleDeleteAllKeys
  | handleDeleteKey (key : Text)
  deriving DecidableEq

/-- How the promise of `axios` is settled. -/
inductive Outcome where
  | success (data : KeyValue)
  /-- `error.response?.status` and `error.message`. -/
  | failure (status : Option ℕ) (message : Text)

namespace App

def init : App := { operation := none, key := [], value := [], result := ∅, message := [] }

def clearInputs (app : App) : App := { app with key := [], value := [], message := [] }

/-! ### The handlers up to their requests -/

def handleSetKeyValue (app : App) : App × Option Suspended :=
  if app.key = [] ∨ app.value = [] then ({ app with message := text "请输入key和value" }, none)
  else (app, some (.handleSetKeyValue app.key app.value))

def handleGetAllKeys (app : App) : App × Option Suspended := (app, some .handleGetAllKeys)

def handleGetValueByKey (app : App) : App × Option Suspended :=
  if app.key = [] then ({ app with message := text "请输入要查询的key" }, none)
  else (app, some (.handleGetValueByKey app.key))

def handleDeleteAllKeys (app : App) : App × Option Suspended := (app, some .handleDeleteAllKeys)

def handleDeleteKey (app : App) : App × Option Suspended :=
  if app.key = [] then ({ app with message := text "请输入要删除的key" }, none)
  else (app, some (.handleDeleteKey app.key))

def handleOperationClick (app : App) (op : OperationType) : App × Option Suspended :=
  let app := { clearInputs { app with operation := some op } with result := ∅ }
  match op with
  | .queryAll => handleGetAllKeys app
  | .deleteAll => handleDeleteAllKeys app
  | _ => (app, none)

end App

/-! ### The handlers from their responses on -/

def Suspended.resume : Suspended → Outcome → App → App
  | .handleSetKeyValue key value, .success _, app =>
    App.clearInputs { app with result := .singleton key value, message := text "插入成功！" }
  | .handleGetAllKeys, .success data, app =>
    { app with
      result := data
      message := if data.keys.card ≠ 0 then text "查询成功！" else text "数据库为空" }
  | .handleGetValueByKey _, .success data, app =>
    { app with result := data, message := text "查询成功！" }
  | .handleDeleteAllKeys, .success _, app =>
    { app with result := ∅, message := text "所有数据已删除！" }
  | .handleDeleteKey key, .success _, app =>
    App.clearInputs { app with result := ∅, message := text "成功删除key: " ++ key }
  | .handleGetValueByKey _, .failure status message, app =>
    if status = some 404 then { app with message := text "未找到该key", result := ∅ }
    else { app with message := text "操作失败：" ++ message }
  | _, .failure _ message, app => { app with message := text "操作失败：" ++ message }

/-! ### What the user can do -/

inductive Action where
  | handleOperationClick (op : OperationType)
  | setKey (key : Text)
  | setValue (value : Text)
  | handleSetKeyValue
  | handleGetValueByKey
  | handleDeleteKey
  | closeAlert
  deriving DecidableEq

/-- The controls `renderInputArea` and the buttons offer. -/
def App.Offers (app : App) : Action → Prop
  | .handleOperationClick _ => True
  | .setKey _ => app.operation = some .insert ∨ app.operation = some .queryByKey ∨
      app.operation = some .deleteByKey
  | .setValue _ | .handleSetKeyValue => app.operation = some .insert
  | .handleGetValueByKey => app.operation = some .queryByKey
  | .handleDeleteKey => app.operation = some .deleteByKey
  | .closeAlert => app.message ≠ []

instance (app : App) : (a : Action) → Decidable (app.Offers a)
  | .handleOperationClick _ => inferInstanceAs (Decidable True)
  | .setKey _ => inferInstanceAs (Decidable (_ ∨ _ ∨ _))
  | .setValue _ | .handleSetKeyValue | .handleGetValueByKey | .handleDeleteKey =>
    inferInstanceAs (Decidable (_ = _))
  | .closeAlert => inferInstanceAs (Decidable (_ ≠ _))

def App.act (app : App) : Action → App × Option Suspended
  | .handleOperationClick op => app.handleOperationClick op
  | .setKey key => ({ app with key }, none)
  | .setValue value => ({ app with value }, none)
  | .handleSetKeyValue => app.handleSetKeyValue
  | .handleGetValueByKey => app.handleGetValueByKey
  | .handleDeleteKey => app.handleDeleteKey
  | .closeAlert => ({ app with message := [] }, none)

end CodeNotes.Redis
