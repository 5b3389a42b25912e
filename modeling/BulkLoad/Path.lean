import BulkLoad.Text.Segments

/-! # File paths

A path keeps its spelling, but paths are compared by components: repeated slashes, a slash at the
end and a `.` anywhere but at the beginning of a relative path make no difference, and `..` is a
component like any other. A path is a text here; spellings in bytes that are no text are left out.
-/
namespace BulkLoad

structure Path where
  text : String
deriving DecidableEq

namespace Path

inductive Component
  | root
  | here
  | parent
  | normal (name : List Char)
deriving DecidableEq

/-- Reads one piece between slashes; `atStart` holds for the first piece of a relative path. -/
def component? (atStart : Bool) (piece : List Char) : Option Component :=
  if piece = [] then none
  else if piece = ['.'] then if atStart then some .here else none
  else if piece = ['.', '.'] then some .parent
  else some (.normal piece)

def componentsOf (text : List Char) : List Component :=
  match text with
  | '/' :: rest => .root :: (Text.segments '/' rest).filterMap (component? false)
  | _ =>
    match Text.segments '/' text with
    | [] => []
    | first :: rest => (component? true first).toList ++ rest.filterMap (component? false)

def components (path : Path) : List Component :=
  componentsOf path.text.toList

/-- Two spellings of the same path. -/
def Same (a b : Path) : Prop := a.components = b.components

instance (a b : Path) : Decidable (a.Same b) :=
  inferInstanceAs (Decidable (a.components = b.components))

/-- The number of bytes of the spelling. -/
def size (path : Path) : Nat := path.text.utf8ByteSize

namespace Component

/-- The root comes first, then `.`, then `..`, then names by their characters. -/
def key : Component → List Nat
  | .root => [0]
  | .here => [1]
  | .parent => [2]
  | .normal name => 3 :: name.map Char.toNat

end Component

def key (path : Path) : List (List Nat) :=
  path.components.map Component.key

def order (a b : Path) : Ordering :=
  compare a.key b.key

/-- The last component, if it is a name. -/
def fileName? (path : Path) : Option (List Char) :=
  match path.components.getLast? with
  | some (.normal name) => some name
  | _ => none

/-- The path of a directory's entry. An empty text takes no slash before the name, and one that
ends in a slash has it already. -/
def entry (dir : Path) (name : String) : Path :=
  if dir.text = "" ∨ dir.text.toList.getLast? = some '/' then ⟨dir.text ++ name⟩
  else ⟨dir.text ++ "/" ++ name⟩

theorem same_refl (path : Path) : path.Same path := rfl
theorem Same.symm {a b : Path} (h : a.Same b) : b.Same a := Eq.symm h
theorem Same.trans {a b c : Path} (hab : a.Same b) (hbc : b.Same c) : a.Same c := Eq.trans hab hbc

theorem Component.key_injective : Function.Injective Component.key := by
  intro a b h
  cases a <;> cases b <;> simp [Component.key] at h ⊢
  next name name' =>
    exact (List.map_inj_right fun _ _ => Char.toNat_inj.mp).mp h

theorem order_eq_iff {a b : Path} : a.order b = .eq ↔ a.Same b := by
  unfold order
  rw [Std.LawfulEqOrd.compare_eq_iff_eq]
  exact List.map_inj_right fun _ _ h => Component.key_injective h

end Path

end BulkLoad
