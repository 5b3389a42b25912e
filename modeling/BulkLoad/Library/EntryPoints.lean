import BulkLoad.Server.Scripted

/-! # Entry points

A client library is usable only if it exports all four entry points of a bulk load. They are looked
up one after the other, and the first that is missing or null ends the search.
-/
namespace BulkLoad

/-- What a look-up gives: an address, of which zero is null, or a failure. -/
inductive Lookup
  | address (value : Nat)
  | failure (detail : String)
deriving DecidableEq

/-- A library that is open: its exports, and the behaviour of the functions behind them. -/
structure Library where
  lookup : String → Lookup
  server : Server

structure Missing where
  symbol : String
  detail : String
deriving DecidableEq

namespace EntryPoints

def names : List String := ["bcp_initW", "bcp_bind", "bcp_sendrow", "bcp_done"]

def terminated (name : String) : String := name.push (Char.ofNat 0)

def find (lookup : String → Lookup) (name : String) : Except Missing Nat :=
  match lookup name with
  | .failure detail => .error ⟨name, detail⟩
  | .address 0 => .error ⟨name, "symbol resolved to null"⟩
  | .address value => .ok value

def findAll (lookup : String → Lookup) : List String → List String × Except Missing (List Nat)
  | [] => ([], .ok [])
  | name :: rest =>
    match find lookup name with
    | .error missing => ([name], .error missing)
    | .ok address =>
      let (asked, found) := findAll lookup rest
      (name :: asked, found.map (address :: ·))

end EntryPoints

def lookupIn (exports : List (String × Lookup)) (name : String) : Lookup :=
  (exports.lookup name).getD (.failure s!"undefined symbol: {name}")

namespace Library

/-- A library that lacks some of the entry points and whose functions follow a script. -/
def stub (detail : String) (lacking : List String) (script : Script) : Library where
  lookup name := if name ∈ EntryPoints.names ∧ name ∉ lacking then .address 1 else .failure detail
  server := script.server

end Library

end BulkLoad
