import ResourceApi.Resource.Problem

/-! # Document methods

What clients may do with a resource. A method is carried by one HTTP verb on one
of the resource's two routes; `get` and `getList` share a verb. -/

namespace ResourceApi

inductive Method where
  | get
  | getList
  | post
  | put
  | patch
  | delete
  | options
  | head
  | trace
  deriving DecidableEq

namespace Method

/-- All methods, in the order a configuration that names none gets them. -/
def all : List Method := [get, getList, post, put, patch, delete, options, head, trace]

def name : Method → String
  | get => "get"
  | getList => "getList"
  | post => "post"
  | put => "put"
  | patch => "patch"
  | delete => "delete"
  | options => "options"
  | head => "head"
  | trace => "trace"

/-- The HTTP verb in lower case. -/
def verb : Method → String
  | getList => "get"
  | m => m.name

def ofName? (s : String) : Option Method := all.find? (·.name == s)

/-- Whether the method addresses one item and not the collection. -/
def onItem : Method → Bool
  | get | put | patch | delete => true
  | _ => false

def hasBody : Method → Bool
  | post | put | patch => true
  | _ => false

/-- The method that a token of a configuration names. -/
def ofToken (token : Json) : Except Problem Method :=
  match token.str?.bind ofName? with
  | some m => .ok m
  | none => .error (.unknownMethod token)

theorem ofName?_name (m : Method) : ofName? m.name = some m := by cases m <;> rfl

end Method
end ResourceApi
