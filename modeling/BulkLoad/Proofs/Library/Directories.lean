import BulkLoad.Library.Host
import BulkLoad.Proofs.Library.Candidates
import BulkLoad.Proofs.Library.Scan

/-! # Directories of a host

The files of a host come about by writing and removing. Whatever is written and removed, every name
in the tree is one that an entry can have and no place is taken twice. So each directory lists
proper entries, and it lists the same in all of its spellings that can be followed. A spelling that
is too long cannot, and so it makes a difference which of them a source names first.
-/
namespace BulkLoad

namespace FileTree

variable {α : Type} {tree : FileTree α} {location : Location}

def IsPlace (location : Location) : Prop :=
  ∀ name ∈ location, IsEntryName name

/-- Every node of the tree is in a place of its own. -/
structure WellFormed (tree : FileTree α) : Prop where
  places : ∀ place ∈ tree.nodes.map Prod.fst, IsPlace place
  distinct : (tree.nodes.map Prod.fst).Nodup

theorem wellFormed_empty : (empty : FileTree α).WellFormed where
  places := nofun
  distinct := List.nodup_nil

theorem map_erase (tree : FileTree α) (location : Location) :
    (tree.erase location).nodes.map Prod.fst =
      (tree.nodes.map Prod.fst).filter (· ≠ location) := by
  rw [List.filter_map]
  rfl

theorem WellFormed.erase (h : tree.WellFormed) (location : Location) :
    (tree.erase location).WellFormed := by
  constructor <;> rw [map_erase]
  · exact fun place hplace => h.places place (List.mem_of_mem_filter hplace)
  · exact h.distinct.filter _

theorem WellFormed.put? (h : tree.WellFormed) (hlocation : IsPlace location) {node : FileNode α}
    {tree' : FileTree α} (hput : tree.put? location node = some tree') : tree'.WellFormed := by
  unfold FileTree.put? at hput
  split at hput
  · exact Option.some.inj hput ▸ h
  · cases hput
  · obtain rfl := Option.some.inj hput
    have herase := h.erase location
    constructor <;> simp only [List.map_append, List.map_cons, List.map_nil]
    · intro place hplace
      rcases List.mem_append.mp hplace with hold | hnew
      · exact herase.places place hold
      · exact List.mem_singleton.mp hnew ▸ hlocation
    · refine List.nodup_append.mpr ⟨herase.distinct, List.nodup_singleton _, ?_⟩
      intro place hplace other hother hsame
      rw [map_erase] at hplace
      have hne := of_decide_eq_true (List.mem_filter.mp hplace).2
      exact hne (hsame.trans (List.mem_singleton.mp hother))

theorem isPlace_nil : IsPlace [] :=
  fun _ hname => absurd hname List.not_mem_nil

theorem IsPlace.concat (h : IsPlace location) {name : List Char} (hname : IsEntryName name) :
    IsPlace (location ++ [name]) := by
  intro other hother
  rcases List.mem_append.mp hother with hold | hnew
  · exact h other hold
  · exact List.mem_singleton.mp hnew ▸ hname

theorem IsPlace.dropLast (h : IsPlace location) : IsPlace location.dropLast :=
  fun name hname => h name (List.mem_of_mem_dropLast hname)

theorem wellFormed_makeDirectory? {location' : Location} {tree' : FileTree α} {piece : List Char}
    (hplain : '/' ∉ piece) (h : tree.WellFormed) (hlocation : IsPlace location)
    (hmake : makeDirectory? (tree, location) piece = some (tree', location')) :
    tree'.WellFormed ∧ IsPlace location' := by
  unfold makeDirectory? at hmake
  dsimp only at hmake
  split at hmake
  · cases hmake
    exact ⟨h, hlocation.dropLast⟩
  · next name hname =>
    have hbelow := hlocation.concat (Path.isEntryName_of_component? hplain hname)
    split at hmake
    · cases hmake
    · obtain ⟨made, hput, hmade⟩ := Option.map_eq_some_iff.mp hmake
      cases hmade
      exact ⟨h.put? hbelow hput, hbelow⟩
  · cases hmake
    exact ⟨h, hlocation⟩

theorem wellFormed_foldlM_makeDirectory? {location' : Location} {tree' : FileTree α}
    {pieces : List (List Char)} (hplain : ∀ piece ∈ pieces, '/' ∉ piece) (h : tree.WellFormed)
    (hlocation : IsPlace location)
    (hmake : pieces.foldlM makeDirectory? (tree, location) = some (tree', location')) :
    tree'.WellFormed ∧ IsPlace location' := by
  induction pieces generalizing tree location with
  | nil =>
    cases hmake
    exact ⟨h, hlocation⟩
  | cons piece rest ih =>
    obtain ⟨hpiece, hrest⟩ := List.forall_mem_cons.mp hplain
    rw [List.foldlM_cons] at hmake
    obtain ⟨⟨made, below⟩, hmade, hnext⟩ := Option.bind_eq_some_iff.mp hmake
    obtain ⟨hwell, hplace⟩ := wellFormed_makeDirectory? hpiece h hlocation hmade
    exact ih hrest hwell hplace hnext

theorem WellFormed.write? (h : tree.WellFormed) {tree' : FileTree α} {pieces : List (List Char)}
    {node : FileNode α} (hplain : ∀ piece ∈ pieces, '/' ∉ piece)
    (hwrite : tree.write? pieces node = some tree') : tree'.WellFormed := by
  have hfront : ∀ piece ∈ pieces.dropLast, '/' ∉ piece := fun piece hpiece =>
    hplain piece (List.mem_of_mem_dropLast hpiece)
  unfold FileTree.write? at hwrite
  split at hwrite
  · cases hwrite
  · next made location hmade =>
    obtain ⟨hwell, hplace⟩ := wellFormed_foldlM_makeDirectory? hfront h isPlace_nil hmade
    split at hwrite
    · next name hname =>
      obtain ⟨piece, hlast, hpiece⟩ := Option.bind_eq_some_iff.mp hname
      have hplainLast := hplain piece (List.mem_of_getLast? hlast)
      exact hwell.put? (hplace.concat (Path.isEntryName_of_component? hplainLast hpiece)) hwrite
    · exact Option.some.inj hwrite ▸ hwell
    · cases hwrite

theorem not_mem_of_pieces? {path : Path} {pieces : List (List Char)}
    (h : pieces? path = some pieces) : ∀ piece ∈ pieces, '/' ∉ piece := by
  unfold pieces? at h
  split at h
  · split at h
    · split at h
      · cases h
      · cases h
        exact fun piece => Text.not_mem_of_mem_segments
    · cases h
  · cases h

theorem WellFormed.write (h : tree.WellFormed) (path : Path) (node : FileNode α) :
    (tree.write path node).WellFormed := by
  unfold FileTree.write
  split
  · exact h
  · next pieces hpieces =>
    cases hwrite : tree.write? pieces node with
    | none => exact h
    | some tree' => exact h.write? (not_mem_of_pieces? hpieces) hwrite

theorem WellFormed.remove (h : tree.WellFormed) (path : Path) : (tree.remove path).WellFormed := by
  unfold FileTree.remove
  split
  · exact h
  · split
    · exact h
    · exact h.erase _

def nameBelow? (location place : Location) : Option String :=
  if place.dropLast = location then place.getLast?.map String.ofList else none

theorem nameBelow?_eq_some_iff {place : Location} {name : String} :
    nameBelow? location place = some name ↔ place = location ++ [name.toList] := by
  unfold nameBelow?
  constructor
  · intro h
    split at h
    · next hfront =>
      obtain ⟨chars, hlast, rfl⟩ := Option.map_eq_some_iff.mp h
      obtain ⟨front, rfl⟩ := List.getLast?_eq_some_iff.mp hlast
      rw [← hfront, List.dropLast_concat, String.toList_ofList]
    · cases h
  · rintro rfl
    rw [if_pos List.dropLast_concat, List.getLast?_concat, Option.map_some, String.ofList_toList]

theorem entries?_eq (tree : FileTree α) (path : Path) :
    tree.entries? path = ((tree.locate? path).filter tree.isDirectory).map fun location =>
      ((tree.nodes.map Prod.fst).filterMap (nameBelow? location)).map some := by
  unfold entries?
  cases tree.locate? path with
  | none => rfl
  | some location =>
    by_cases hdirectory : tree.isDirectory location
    · simp only [hdirectory, if_true, Option.filter_some, Option.map_some, List.filterMap_map,
        List.map_filterMap]
      refine congrArg some (List.filterMap_congr fun node _ => ?_)
      by_cases hbelow : node.1.dropLast = location
      · simp only [Function.comp_apply, nameBelow?, hbelow, if_true, Option.map_map]
      · simp only [Function.comp_apply, nameBelow?, hbelow, if_false, Option.map_none]
    · simp only [hdirectory, Option.filter_some, if_false, Option.map_none, Bool.false_eq_true]

theorem WellFormed.proper_of_entries? (h : tree.WellFormed) {path : Path} {listing : Listing}
    (hread : tree.entries? path = some listing) : listing.Proper := by
  rw [entries?_eq] at hread
  obtain ⟨location, -, rfl⟩ := Option.map_eq_some_iff.mp hread
  constructor
  · intro name hname
    obtain ⟨name', hlisted, hsame⟩ := List.mem_map.mp hname
    obtain rfl := Option.some.inj hsame
    obtain ⟨place, hplace, hbelow⟩ := List.mem_filterMap.mp hlisted
    obtain rfl := nameBelow?_eq_some_iff.mp hbelow
    exact h.places _ hplace _ List.mem_concat_self
  · rw [List.reduceOption, List.filterMap_map]
    have hnames : (id ∘ some : String → Option String) = some := rfl
    rw [hnames, List.filterMap_some]
    refine h.distinct.filterMap fun place place' name hname hname' => ?_
    rw [nameBelow?_eq_some_iff.mp hname, nameBelow?_eq_some_iff.mp hname']

/-- One component further, from a location that has to be a directory. -/
def follow? (tree : FileTree α) (location : Location) (component : Path.Component) :
    Option Location :=
  if tree.isDirectory location then
    match component with
    | .parent => some location.dropLast
    | .normal name =>
      if (tree.node? (location ++ [name])).isSome then some (location ++ [name]) else none
    | _ => some location
  else none

theorem enter?_eq (tree : FileTree α) (location : Location) (piece : List Char) :
    tree.enter? location piece = if tree.isDirectory location then
      (Path.component? false piece).elim (some location) (tree.follow? location) else none := by
  unfold enter? follow?
  split
  · cases Path.component? false piece with
    | none => rfl
    | some component => cases component <;> rfl
  · rfl

theorem filter_foldlM_follow?_of_not (hdirectory : tree.isDirectory location = false)
    (components : List Path.Component) :
    (components.foldlM tree.follow? location).filter tree.isDirectory = none := by
  cases components with
  | nil => simp [hdirectory]
  | cons component rest => simp [follow?, hdirectory]

/-- Whether pieces lead to a directory depends only on the components that they stand for. -/
theorem filter_foldlM_enter? (tree : FileTree α) (location : Location)
    (pieces : List (List Char)) :
    (pieces.foldlM tree.enter? location).filter tree.isDirectory =
      ((pieces.filterMap (Path.component? false)).foldlM tree.follow? location).filter
        tree.isDirectory := by
  induction pieces generalizing location with
  | nil => rfl
  | cons piece rest ih =>
    rw [List.foldlM_cons, enter?_eq]
    cases hdirectory : tree.isDirectory location with
    | false =>
      rw [filter_foldlM_follow?_of_not hdirectory]
      rfl
    | true =>
      rw [if_pos rfl, List.filterMap_cons]
      cases Path.component? false piece with
      | none => exact ih location
      | some component =>
        dsimp only [Option.elim_some]
        rw [List.foldlM_cons]
        cases tree.follow? location component with
        | none => rfl
        | some below => exact ih below

theorem mem_of_filterMap_component?_eq {c : Char} {below below' : List Char} (hslash : c ≠ '/')
    (hdot : c ≠ '.') (h : (Text.segments '/' below).filterMap (Path.component? false) =
      (Text.segments '/' below').filterMap (Path.component? false)) (hc : c ∈ below) :
    c ∈ below' := by
  obtain ⟨piece, hpiece, hinside⟩ := (Text.mem_iff_exists_segment hslash).mp hc
  have hnormal : Path.component? false piece = some (.normal piece) := by
    refine Path.component?_eq_normal_iff.mpr ⟨rfl, ?_, ?_, ?_⟩ <;> rintro rfl
    · exact absurd hinside List.not_mem_nil
    · exact hdot (List.mem_singleton.mp hinside)
    · simp only [List.mem_cons, List.not_mem_nil, or_false, or_self] at hinside
      exact hdot hinside
  have hmem := List.mem_filterMap.mpr ⟨piece, hpiece, hnormal⟩
  rw [h] at hmem
  obtain ⟨piece', hpiece', hnormal'⟩ := List.mem_filterMap.mp hmem
  obtain ⟨rfl, -⟩ := Path.component?_eq_normal_iff.mp hnormal'
  exact (Text.mem_iff_exists_segment hslash).mpr ⟨_, hpiece', hinside⟩

theorem size_lt_of_pieces? {path : Path} {pieces : List (List Char)}
    (h : pieces? path = some pieces) : path.size < sizeLimit := by
  by_contra hlong
  rw [pieces?, if_neg hlong] at h
  cases h

theorem exists_pieces?_of_same {a b : Path} (h : a.Same b) (hsize : b.size < sizeLimit)
    {pieces : List (List Char)} (ha : pieces? a = some pieces) :
    ∃ pieces', pieces? b = some pieces' ∧ pieces.filterMap (Path.component? false) =
      pieces'.filterMap (Path.component? false) := by
  have hsize' := size_lt_of_pieces? ha
  obtain ⟨text⟩ := a
  obtain ⟨text'⟩ := b
  rw [pieces?, if_pos hsize'] at ha
  rw [pieces?, if_pos hsize]
  dsimp only at ha ⊢
  have hsame : Path.componentsOf text.toList = Path.componentsOf text'.toList := h
  split at ha
  · next below hbelow =>
    rw [hbelow] at hsame
    have hroot : Path.Component.root ∈ Path.componentsOf text'.toList :=
      hsame ▸ List.mem_cons_self
    obtain ⟨below', hbelow'⟩ := Path.exists_of_root_mem hroot
    rw [hbelow'] at hsame ⊢
    have hcomponents := (List.cons.inj hsame).2
    split at ha
    · cases ha
    · next hzero =>
      cases ha
      refine ⟨_, if_neg fun hzero' => hzero ?_, hcomponents⟩
      exact mem_of_filterMap_component?_eq (by decide) (by decide) hcomponents.symm hzero'
  · cases ha

/-- A directory lists the same in all spellings that are not too long. -/
theorem entries?_of_same (tree : FileTree α) {a b : Path} (h : a.Same b)
    (hsize : a.size < sizeLimit) (hsize' : b.size < sizeLimit) :
    tree.entries? a = tree.entries? b := by
  rw [entries?_eq, entries?_eq]
  refine congrArg (Option.map _) ?_
  unfold locate?
  cases ha : pieces? a with
  | some pieces =>
    obtain ⟨pieces', hb, hcomponents⟩ := exists_pieces?_of_same h hsize' ha
    simp only [hb, filter_foldlM_enter?, hcomponents]
  | none =>
    cases hb : pieces? b with
    | none => rfl
    | some pieces' =>
      obtain ⟨pieces, ha', -⟩ := exists_pieces?_of_same h.symm hsize hb
      cases ha.symm.trans ha'

theorem entries?_of_sizeLimit_le (tree : FileTree α) {path : Path} (h : sizeLimit ≤ path.size) :
    tree.entries? path = none := by
  have hpieces : pieces? path = none := if_neg (Nat.not_lt.mpr h)
  simp only [entries?, locate?, hpieces]

theorem size_lt_of_entries? {path : Path} {listing : Listing}
    (h : tree.entries? path = some listing) : path.size < sizeLimit := by
  by_contra hlong
  rw [entries?_of_sizeLimit_le tree (Nat.not_lt.mp hlong)] at h
  cases h

theorem entries?_ne_none_of_same (tree : FileTree α) {a b : Path} (h : a.Same b)
    (hsize : a.size < sizeLimit) (hread : tree.entries? b ≠ none) : tree.entries? a ≠ none := by
  obtain ⟨listing, hlisting⟩ := Option.ne_none_iff_exists'.mp hread
  rwa [tree.entries?_of_same h hsize (size_lt_of_entries? hlisting)]

end FileTree

namespace Host

theorem files_step (detail : String) (host : Host) (action : Action) :
    (host.step detail action).2.files = host.files ∨
      (∃ path node, (host.step detail action).2.files = host.files.write path node) ∨
      ∃ path, (host.step detail action).2.files = host.files.remove path := by
  cases action with
  | write path node => exact .inr (.inl ⟨path, node, rfl⟩)
  | remove path => exact .inr (.inr ⟨path, rfl⟩)
  | load path place =>
    refine .inl ?_
    unfold step
    dsimp only
    split <;> rfl
  | acquire path place =>
    refine .inl ?_
    unfold step
    dsimp only
    split <;> rfl
  | search source place =>
    refine .inl ?_
    unfold step
    dsimp only
    split <;> rfl
  | drop place => exact .inl rfl
  | copy place batch => exact .inl rfl

theorem wellFormed_step (detail : String) {host : Host} (h : host.files.WellFormed)
    (action : Action) : (host.step detail action).2.files.WellFormed := by
  rcases files_step detail host action with hsame | ⟨path, node, hwritten⟩ | ⟨path, hremoved⟩
  · exact hsame ▸ h
  · exact hwritten ▸ h.write path node
  · exact hremoved ▸ h.remove path

def after (detail : String) (actions : List Action) : Host :=
  actions.foldl (fun host action => (host.step detail action).2) empty

theorem wellFormed_after (detail : String) (actions : List Action) :
    (after detail actions).files.WellFormed := by
  induction actions using List.reverseRecOn with
  | nil => exact FileTree.wellFormed_empty
  | append_singleton actions action ih =>
    rw [after, List.foldl_concat]
    exact wellFormed_step detail ih action

section Directories

variable (detail : String) (actions : List Action)

theorem proper_of_entries?_after {dir : Path} {listing : Listing}
    (hread : (after detail actions).files.entries? dir = some listing) : listing.Proper :=
  (wellFormed_after detail actions).proper_of_entries? hread

theorem named_entries?_after : Directories.Named (after detail actions).files.entries? :=
  fun _ _ hread => (proper_of_entries?_after detail actions hread).named

theorem pairwise_libraryFiles_after (dir : Path) :
    (libraryFiles (after detail actions).files.entries? dir).Pairwise
      fun a b => Version.order a b = .lt := by
  cases hread : (after detail actions).files.entries? dir with
  | none =>
    rw [libraryFiles_of_unreadable hread]
    exact List.Pairwise.nil
  | some listing =>
    exact pairwise_libraryFiles hread (proper_of_entries?_after detail actions hread)

/-- A host is not searched twice in one directory that was read, however that is spelled. -/
theorem candidates_concat_after {dir again : Path} {names dirs : List Path} (hdir : dir ∈ dirs)
    (hsame : dir.Same again)
    (hreadable : (after detail actions).files.entries? again ≠ none →
      (after detail actions).files.entries? dir ≠ none) :
    (Source.probing names (dirs ++ [again])).candidates (after detail actions).files.entries? =
      (Source.probing names dirs).candidates (after detail actions).files.entries? := by
  refine Source.candidates_concat_of_same (named_entries?_after detail actions) hdir hsame ?_
  intro listing' hread'
  have hfound : (after detail actions).files.entries? again ≠ none := by simp [hread']
  obtain ⟨listing, hread⟩ := Option.ne_none_iff_exists'.mp (hreadable hfound)
  have halike := (after detail actions).files.entries?_of_same hsame
    (FileTree.size_lt_of_entries? hread) (FileTree.size_lt_of_entries? hread')
  rw [hread, hread'] at halike
  exact ⟨listing, hread, Option.some.inj halike ▸ List.Subset.refl _⟩

end Directories

end Host

namespace Source

/-- The candidates of a probing source, and the directories that make no difference to them: one
that cannot be read, and one that was read before in another spelling. On a host the scans are
sorted, a directory lists the same in all spellings that can be read, and only a spelling that is
too long cannot be read where another one can. -/
theorem candidates_gathered {directories : Directories} (h : directories.Named)
    (names dirs : List Path) :
    (∃ kept, (probing names dirs).candidates directories = names ++ kept ∧
      Gathered directories names dirs kept) ∧
    (∀ front dir back, dirs = front ++ dir :: back → directories dir = none →
      (probing names dirs).candidates directories =
        (probing names (front ++ back)).candidates directories) ∧
    (∀ dir ∈ dirs, ∀ again, dir.Same again → directories.Covers dir again →
      (probing names (dirs ++ [again])).candidates directories =
        (probing names dirs).candidates directories) ∧
    ∀ detail actions,
      let files : Directories := (Host.after detail actions).files.entries?
      files.Named ∧
      (∀ dir, (libraryFiles files dir).Pairwise fun a b => Version.order a b = .lt) ∧
      (∀ dir ∈ dirs, ∀ again, dir.Same again → (files again ≠ none → files dir ≠ none) →
        (probing names (dirs ++ [again])).candidates files =
          (probing names dirs).candidates files) ∧
      ∀ dir again, dir.Same again → dir.size < FileTree.sizeLimit →
        files again ≠ none → files dir ≠ none := by
  refine ⟨exists_gathered h names dirs, ?_, ?_, ?_⟩
  · rintro front dir back rfl hunreadable
    exact candidates_of_unreadable hunreadable
  · exact fun dir hdir again hsame hcovers => candidates_concat_of_same h hdir hsame hcovers
  · intro detail actions
    exact ⟨Host.named_entries?_after detail actions,
      Host.pairwise_libraryFiles_after detail actions,
      fun dir hdir again => Host.candidates_concat_after detail actions hdir,
      fun dir again => FileTree.entries?_ne_none_of_same _⟩

theorem candidates_gathered_sample :
    let directories : Directories := fun path =>
      if path.Same ⟨"/a"⟩ then some [some "libmsodbcsql-18.so", none, some "README"] else none
    let names : List Path := [⟨"libmsodbcsql-18.so"⟩, ⟨"/b/libmsodbcsql-18.so"⟩]
    directories.Named ∧
      directories.Offers ⟨"/a"⟩ ⟨"/a/libmsodbcsql-18.so"⟩ ∧
      Repeats ((probing names [⟨"/b"⟩, ⟨"/a"⟩]).candidates directories)
        ⟨"/a/./libmsodbcsql-18.so"⟩ ∧
      (probing names [⟨"/b"⟩, ⟨"/a"⟩, ⟨"/a/./"⟩]).candidates directories =
        (probing names [⟨"/b"⟩, ⟨"/a"⟩]).candidates directories := by
  intro directories names
  have hlisted : ∀ dir listing, directories dir = some listing →
      dir.Same ⟨"/a"⟩ ∧ listing = [some "libmsodbcsql-18.so", none, some "README"] := by
    intro dir listing hread
    by_cases hsame : dir.Same ⟨"/a"⟩
    · exact ⟨hsame, (Option.some.inj ((if_pos hsame).symm.trans hread)).symm⟩
    · cases (if_neg hsame).symm.trans hread
  have hnamed : directories.Named := by
    intro dir listing hread
    obtain ⟨-, rfl⟩ := hlisted dir listing hread
    decide
  have hcovers : directories.Covers ⟨"/a"⟩ ⟨"/a/./"⟩ := by
    intro listing' hread'
    obtain ⟨-, rfl⟩ := hlisted ⟨"/a/./"⟩ listing' hread'
    exact ⟨_, if_pos rfl, List.Subset.refl _⟩
  have hoffers : directories.Offers ⟨"/a"⟩ ⟨"/a/libmsodbcsql-18.so"⟩ :=
    ⟨_, if_pos rfl, "libmsodbcsql-18.so", by decide, by decide, by decide⟩
  obtain ⟨⟨kept, hkept, hgathered⟩, -, hagain, -⟩ :=
    candidates_gathered hnamed names [⟨"/b"⟩, ⟨"/a"⟩]
  refine ⟨hnamed, hoffers, ?_, ?_⟩
  · rw [hkept]
    exact (hgathered.complete ⟨"/a"⟩ (by decide) _ hoffers).of_same (by decide)
  · exact hagain ⟨"/a"⟩ (by decide) ⟨"/a/./"⟩ (by decide) hcovers

/-- A directory that was first named by too long a spelling adds its files when named again. -/
theorem candidates_concat_too_long :
    let long : Path := ⟨"/d" ++ String.ofList (List.replicate 5000 '/')⟩
    let file : Path := ⟨"/d/libmsodbcsql-18.so"⟩
    let files : Directories := (Host.after "" [.write file (.file none)]).files.entries?
    files.Named ∧ long.Same ⟨"/d"⟩ ∧
      (probing [] [long]).candidates files = [] ∧
      (probing [] ([long] ++ [⟨"/d"⟩])).candidates files = [file] ∧
      (probing [] ([long] ++ [⟨"/d"⟩])).candidates files ≠
        (probing [] [long]).candidates files := by
  intro long file files
  have htext : long.text.toList = "/d".toList ++ List.replicate 5000 '/' :=
    String.toList_append.trans (congrArg ("/d".toList ++ ·) String.toList_ofList)
  have hsame : long.Same ⟨"/d"⟩ := by
    unfold Path.Same Path.components
    rw [htext]
    exact Path.componentsOf_append_replicate (by decide) 5000
  have hsize : FileTree.sizeLimit ≤ long.size := by
    refine le_trans ?_ long.length_le_size
    rw [htext, List.length_append, List.length_replicate]
    decide
  have hnothing : libraryFiles files long = [] :=
    libraryFiles_of_unreadable (FileTree.entries?_of_sizeLimit_le _ hsize)
  have hlisted : files ⟨"/d"⟩ = some [some "libmsodbcsql-18.so"] := by decide
  have hpaths : Listing.libraryPaths [some "libmsodbcsql-18.so"] ⟨"/d"⟩ = [file] := by decide
  have hscan : libraryFiles files ⟨"/d"⟩ = [file] := by
    rw [libraryFiles, hlisted, Option.getD_some, hpaths, List.mergeSort_singleton]
  have hfirst : (probing [] [long]).candidates files = [] := by
    rw [candidates_probing, List.flatMap_singleton, hnothing, List.foldl_nil]
  have hsecond : (probing [] ([long] ++ [⟨"/d"⟩])).candidates files = [file] := by
    rw [candidates_probing, List.flatMap_append, List.flatMap_singleton, List.flatMap_singleton,
      hnothing, hscan, List.nil_append]
    decide
  refine ⟨Host.named_entries?_after "" _, hsame, hfirst, hsecond, ?_⟩
  rw [hfirst, hsecond]
  exact List.cons_ne_nil file []

end Source

end BulkLoad
