/-!
# Values of settings

What a key of the configuration may be given, and how one layer of values is laid over another:
tables are joined key by key, at any depth, and any other value takes the place of the one below
it.
-/

namespace Datebook

/-- A value in the configuration. Which floating-point number one is makes no difference here. -/
inductive Setting
  | text (s : String)
  | integer (n : Int)
  | boolean (b : Bool)
  | float
  | list (items : List Setting)
  | table (members : List (String × Setting))

namespace Setting

/-- The members of a table, each key at most once. -/
abbrev Members := List (String × Setting)

def empty : Setting := .table []

instance : Inhabited Setting := ⟨empty⟩

/-- The members with the value under the key, in place of the one that was there. -/
def Members.put (key : String) (value : Setting) : Members → Members
  | [] => [(key, value)]
  | (k, v) :: ms => if k = key then (k, value) :: ms else (k, v) :: Members.put key value ms

mutual

/-- The value laid over another. -/
def overlay (below : Setting) : Setting → Setting
  | .table ms =>
    match below with
    | .table old => .table (overlayMembers old ms)
    | _ => .table ms
  | v => v

/-- The members of a table laid over those of another. -/
def overlayMembers (below : Members) : Members → Members
  | [] => below
  | (k, v) :: ms =>
    let value := match below.lookup k with
      | some u => overlay u v
      | none => v
    overlayMembers (below.put k value) ms

end

/-- A table that holds nothing but the value at the end of a path. -/
def nested (path : List String) (value : Setting) : Setting :=
  path.foldr (fun key v => .table [(key, v)]) value

/-- The member of a section: by its key in a table, by its position in a list. -/
def member? (holder : Setting) (position : Nat) (key : String) : Option Setting :=
  match holder with
  | .table ms => ms.lookup key
  | .list items => items[position]?
  | _ => none

/-- The value can hold the members of a section. -/
def isSection : Setting → Bool
  | .table _ => true
  | .list _ => true
  | _ => false

def text? : Setting → Option String
  | .text s => some s
  | _ => none

/-- A natural number below a limit. -/
def nat? (limit : Nat) : Setting → Option Nat
  | .integer n => if 0 ≤ n ∧ n < limit then some n.toNat else none
  | _ => none

@[simp] theorem lookup_put (ms : Members) (k key : String) (v : Setting) :
    (Members.put key v ms).lookup k = if k = key then some v else ms.lookup k := by
  induction ms with
  | nil => grind [Members.put]
  | cons m ms ih => grind [Members.put]

end Setting

end Datebook
