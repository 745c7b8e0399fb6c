import Datebook.Settings.Value

/-!
# The tables of a document

A document is built up by its lines. A table is made by its header, by a header of a table inside
it, or by a key of several parts; which one it was decides what may still be added to it. A header
may name a table once, and a table that only another header has made. A key of several parts adds
to tables that such keys have made, and never to one that has a header.
-/

namespace Datebook.Toml

/-- How a table came to be. -/
inductive Origin
  | header
  | passing
  | dotted
  deriving DecidableEq

/-- What a key stands for; a series has the tables of equal headers, the latest first. -/
inductive Item
  | value (v : Setting)
  | table (origin : Origin) (members : List (String × Item))
  | series (tables : List (List (String × Item)))

abbrev Members := List (String × Item)

/-- The members with the item under the key, in place of the one that was there. -/
def Members.put (key : String) (item : Item) : Members → Members
  | [] => [(key, item)]
  | (k, i) :: ms => if k = key then (k, item) :: ms else (k, i) :: Members.put key item ms

/-- Adds a new key with its value to the table at a path of keys that were written with points. -/
def Members.add? (key : String) (value : Item) : List String → Members → Option Members
  | [], ms => if (ms.lookup key).isSome then none else some (ms ++ [(key, value)])
  | k :: path, ms =>
    match ms.lookup k with
    | none => (add? key value path []).map fun inner => ms.put k (.table .dotted inner)
    | some (.table .dotted inner) =>
      (add? key value path inner).map fun inner => ms.put k (.table .dotted inner)
    | some (.table .passing inner) =>
      if path.isEmpty then none
      else (add? key value path inner).map fun inner => ms.put k (.table .passing inner)
    | some (.series (latest :: tables)) =>
      if path.isEmpty then none
      else (add? key value path latest).map fun latest => ms.put k (.series (latest :: tables))
    | some _ => none

/-- Changes the table at the path of a header; tables on the way that are missing are made. -/
def Members.within? (change : Members → Option Members) : List String → Members → Option Members
  | [], ms => change ms
  | k :: path, ms =>
    match ms.lookup k with
    | none => (within? change path []).map fun inner => ms.put k (.table .passing inner)
    | some (.table origin inner) =>
      (within? change path inner).map fun inner => ms.put k (.table origin inner)
    | some (.series (latest :: tables)) =>
      (within? change path latest).map fun latest => ms.put k (.series (latest :: tables))
    | some _ => none

/-- Takes the header of a table. -/
def Members.open? (key : String) (ms : Members) : Option Members :=
  match ms.lookup key with
  | none => some (ms.put key (.table .header []))
  | some (.table .passing inner) => some (ms.put key (.table .header inner))
  | some _ => none

/-- Takes the header of one more table in a series. -/
def Members.openNext? (key : String) (ms : Members) : Option Members :=
  match ms.lookup key with
  | none => some (ms.put key (.series [[]]))
  | some (.series tables) => some (ms.put key (.series ([] :: tables)))
  | some _ => none

mutual

/-- The setting that an item is. -/
def Item.setting : Item → Setting
  | .value v => v
  | .table _ ms => .table (settings ms)
  | .series tables => .list (allSettings tables).reverse

def settings : List (String × Item) → List (String × Setting)
  | [] => []
  | (k, item) :: ms => (k, item.setting) :: settings ms

def allSettings : List (List (String × Item)) → List Setting
  | [] => []
  | ms :: tables => .table (settings ms) :: allSettings tables

end

end Datebook.Toml
