import DebugLink.Files.Tree
import DebugLink.Proofs.Table.Lookup
import Mathlib.Data.List.Infix
import Mathlib.Data.List.TakeWhile

/-!
What stays as it is when files are moved and removed. Whatever a path leads to lies in directories
(`locate?_inside`), so a path never passes a file, and two trees that differ in nothing but where
files are have all their paths lead to the same places (`OnlyFiles.locate?_eq`).
-/

set_option autoImplicit false

namespace DebugLink.FileTree

variable {tree after : FileTree} {place : Location} {path : Path}

/-- The root is a directory. -/
theorem nodeAt?_nil (tree : FileTree) : tree.nodeAt? [] = some .directory := rfl

/-- Below the root a node is found by its place. -/
theorem nodeAt?_of_ne (h : place ≠ []) : tree.nodeAt? place = tree.nodes.lookup place :=
  if_neg fun hempty ↦ h (List.isEmpty_iff.mp hempty)

/-! ### Following a path -/

/-- All that is around a place is a directory. -/
def Inside (tree : FileTree) (place : Location) : Prop :=
  ∀ around, around <+: place → around ≠ place → tree.nodeAt? around = some .directory

/-- Nothing is around the root. -/
theorem inside_nil (tree : FileTree) : tree.Inside [] :=
  fun _ habove hne ↦ absurd (List.prefix_nil.mp habove) hne

/-- A step from a directory leads to a place that lies in directories. -/
theorem Inside.next? {next : Location} {part : String} (hinside : tree.Inside place)
    (hdirectory : tree.nodeAt? place = some .directory)
    (h : FileTree.next? place part = some next) :
    tree.Inside next := by
  have haround : ∀ around, around <+: place → tree.nodeAt? around = some .directory := by
    intro around habove
    by_cases hself : around = place
    · rw [hself, hdirectory]
    · exact hinside around habove hself
  unfold FileTree.next? at h
  split_ifs at h with hstays hup hroot hlimit
  · obtain rfl : place = next := Option.some.inj h
    exact hinside
  · obtain rfl : place.dropLast = next := Option.some.inj h
    exact fun around habove _ ↦ haround around (habove.trans (List.dropLast_prefix place))
  · obtain rfl : place ++ [part] = next := Option.some.inj h
    intro around habove hne
    rcases List.prefix_concat_iff.mp habove with hall | hbefore
    · exact absurd hall hne
    · exact haround around hbefore

/-- A path is followed one part at a time, through directories. -/
theorem follow?_cons (tree : FileTree) (place : Location) (part : String) (rest : List String) :
    tree.follow? place (part :: rest) =
      if tree.nodeAt? place = some .directory then
        next? place part >>= fun next ↦ tree.follow? next rest
      else none :=
  rfl

/-- A path is followed in two stretches. -/
theorem follow?_append (tree : FileTree) (place : Location) (first rest : List String) :
    tree.follow? place (first ++ rest) =
      tree.follow? place first >>= fun next ↦ tree.follow? next rest := by
  induction first generalizing place with
  | nil => rfl
  | cons part others ih =>
    rw [List.cons_append, follow?_cons, follow?_cons]
    split_ifs
    · cases next? place part with
      | none => rfl
      | some next => exact ih next
    · rfl

/-- Parts that stay need only what the part behind them needs as well. -/
theorem follow?_stays (tree : FileTree) (place : Location) {still : List String}
    (h : ∀ part ∈ still, Path.stays part = true) (part : String) (rest : List String) :
    tree.follow? place (still ++ part :: rest) = tree.follow? place (part :: rest) := by
  induction still with
  | nil => rfl
  | cons first others ih =>
    obtain ⟨hfirst, hothers⟩ := List.forall_mem_cons.mp h
    have hnext : next? place first = some place := if_pos hfirst
    rw [List.cons_append, follow?_cons, hnext, Option.bind_eq_bind, Option.bind_some, ih hothers,
      follow?_cons]
    split_ifs <;> rfl

/-- A path without the parts at its end that stay where they are. -/
theorem exists_trimmed (parts : List String) :
    ∃ still, parts = (Path.trimmed ⟨parts⟩).parts ++ still ∧
      ∀ part ∈ still, Path.stays part = true := by
  refine ⟨(parts.reverse.takeWhile Path.stays).reverse, ?_, ?_⟩
  · show parts = (parts.reverse.dropWhile Path.stays).reverse ++ _
    rw [← List.reverse_append, List.takeWhile_append_dropWhile, List.reverse_reverse]
  · intro part hpart
    exact List.mem_takeWhile_imp (List.mem_reverse.mp hpart)

/-- A path without the parts that stay leads on as the whole path does. -/
theorem follow?_trimmed (tree : FileTree) (place : Location) (parts : List String)
    (part : String) :
    tree.follow? place ((Path.trimmed ⟨parts⟩).parts ++ [part]) =
      tree.follow? place (parts ++ [part]) := by
  obtain ⟨still, hparts, hstill⟩ := exists_trimmed parts
  conv_rhs => rw [hparts]
  rw [List.append_assoc, follow?_append, follow?_append]
  congr 1
  funext next
  exact (follow?_stays tree next hstill part []).symm

/-- A path leads through directories only. -/
theorem Inside.follow? {parts : List String} {last : Location} (hinside : tree.Inside place)
    (h : tree.follow? place parts = some last) : tree.Inside last := by
  induction parts generalizing place with
  | nil =>
    obtain rfl : place = last := Option.some.inj h
    exact hinside
  | cons part rest ih =>
    rw [follow?_cons] at h
    split_ifs at h with hdirectory
    obtain ⟨next, hnext, hrest⟩ := Option.bind_eq_some_iff.mp h
    exact ih (hinside.next? hdirectory hnext) hrest

/-- Every place that a path leads to is inside directories. -/
theorem locate?_inside (h : tree.locate? path = some place) : tree.Inside place := by
  unfold locate? at h
  split_ifs at h
  exact (inside_nil tree).follow? h

/-- What a path leads to is what stands at its place. -/
theorem get?_of_locate? (h : tree.locate? path = some place) :
    tree.get? path = tree.nodeAt? place := by
  rw [get?, h]
  rfl

/-- What a path leads to stands at the place of the path. -/
theorem locate?_of_get? {node : FileNode} (h : tree.get? path = some node) :
    ∃ place, tree.locate? path = some place ∧ tree.nodeAt? place = some node :=
  Option.bind_eq_some_iff.mp h

/-- Something that lies in directories is a directory if something else lies in it. -/
theorem Inside.not_below {file : Location} (hinside : tree.Inside place)
    (hfile : tree.nodeAt? file ≠ some .directory) (hne : file ≠ place) : ¬ file <+: place :=
  fun habove ↦ hfile (hinside file habove hne)

/-! ### Two paths to one place -/

/-- Two paths lead to one place. -/
def Meet (tree : FileTree) (path other : Path) : Prop :=
  ∃ place, tree.locate? path = some place ∧ tree.locate? other = some place

instance (path other : Path) : Decidable (tree.Meet path other) :=
  decidable_of_iff ((tree.locate? path).isSome ∧ tree.locate? other = tree.locate? path) <| by
    constructor
    · rintro ⟨hsome, hsame⟩
      obtain ⟨place, hplace⟩ := Option.isSome_iff_exists.mp hsome
      exact ⟨place, hplace, hsame.trans hplace⟩
    · rintro ⟨place, hpath, hother⟩
      rw [hpath, hother]
      exact ⟨rfl, rfl⟩

/-- Paths that meet, meet in either order. -/
theorem Meet.symm {other : Path} (h : tree.Meet path other) : tree.Meet other path := by
  obtain ⟨place, hpath, hother⟩ := h
  exact ⟨place, hother, hpath⟩

/-- Paths that meet a third one meet each other. -/
theorem Meet.trans {other third : Path} (h : tree.Meet path other) (h' : tree.Meet other third) :
    tree.Meet path third := by
  obtain ⟨place, hpath, hother⟩ := h
  obtain ⟨_, hother', hthird⟩ := h'
  obtain rfl := Option.some.inj (hother.symm.trans hother')
  exact ⟨place, hpath, hthird⟩

/-- Paths that meet lead to the same node. -/
theorem Meet.get?_eq {other : Path} (h : tree.Meet path other) :
    tree.get? path = tree.get? other := by
  obtain ⟨place, hpath, hother⟩ := h
  rw [get?_of_locate? hpath, get?_of_locate? hother]

/-! ### Changes to files -/

/-- One tree comes of another by changes at some places where no directory is, neither before nor
after. Below a file there may be anything, since no path leads there. -/
structure OnlyFiles (tree after : FileTree) (places : List Location) : Prop where
  before_ne : ∀ place ∈ places, tree.nodeAt? place ≠ some .directory
  after_ne : ∀ place ∈ places, after.nodeAt? place ≠ some .directory
  same : ∀ place, (∀ file ∈ places, ¬ file <+: place) → after.nodeAt? place = tree.nodeAt? place

namespace OnlyFiles

variable {places : List Location}

/-- A place inside directories that is not changed keeps its node. -/
theorem same_of_inside (hchange : OnlyFiles tree after places) (hinside : tree.Inside place)
    (hplace : place ∉ places) : after.nodeAt? place = tree.nodeAt? place := by
  refine hchange.same place fun file hfile ↦ hinside.not_below (hchange.before_ne file hfile) ?_
  rintro rfl
  exact hplace hfile

/-- Changes to files neither make nor remove a directory that a path can lead to. -/
theorem directory_iff (hchange : OnlyFiles tree after places) (hinside : tree.Inside place) :
    after.nodeAt? place = some .directory ↔ tree.nodeAt? place = some .directory := by
  by_cases hplace : place ∈ places
  · exact iff_of_false (hchange.after_ne place hplace) (hchange.before_ne place hplace)
  · rw [hchange.same_of_inside hinside hplace]

/-- Changes to files lead no path elsewhere. -/
theorem follow?_eq (hchange : OnlyFiles tree after places) (hinside : tree.Inside place)
    (parts : List String) : after.follow? place parts = tree.follow? place parts := by
  induction parts generalizing place with
  | nil => rfl
  | cons part rest ih =>
    rw [follow?_cons, follow?_cons]
    by_cases hdirectory : tree.nodeAt? place = some .directory
    · rw [if_pos hdirectory, if_pos ((hchange.directory_iff hinside).mpr hdirectory)]
      cases hnext : next? place part with
      | none => rfl
      | some next => exact ih (hinside.next? hdirectory hnext)
    · rw [if_neg hdirectory, if_neg fun h ↦ hdirectory ((hchange.directory_iff hinside).mp h)]

/-- Every path leads where it led before. -/
theorem locate?_eq (hchange : OnlyFiles tree after places) (path : Path) :
    after.locate? path = tree.locate? path := by
  unfold locate?
  rw [hchange.follow?_eq (inside_nil tree)]

/-- What a path to another place leads to is what it led to before. -/
theorem get?_eq (hchange : OnlyFiles tree after places)
    (hother : ∀ place, tree.locate? path = some place → place ∉ places) :
    after.get? path = tree.get? path := by
  rw [get?, get?, hchange.locate?_eq]
  cases hlocate : tree.locate? path with
  | none => rfl
  | some place => exact hchange.same_of_inside (locate?_inside hlocate) (hother place hlocate)

end OnlyFiles

/-! ### Removing a file -/

/-- A tree without what stands at a place. -/
def without (tree : FileTree) (place : Location) : FileTree :=
  ⟨tree.nodes.filter (·.1 ≠ place)⟩

/-- Nothing stands at the place that was cleared, and all else where it stood. -/
theorem nodeAt?_without {other : Location} (hother : other ≠ []) :
    (tree.without place).nodeAt? other = if other = place then none else tree.nodeAt? other := by
  rw [nodeAt?_of_ne hother, nodeAt?_of_ne hother]
  exact Entries.lookup_filter_ne tree.nodes place other

/-- Where no directory is, is not the root. -/
theorem ne_nil_of_not_directory (h : tree.nodeAt? place ≠ some .directory) : place ≠ [] := by
  rintro rfl
  exact h (nodeAt?_nil tree)

/-- Removing a file takes away nothing else, and no path leads elsewhere for it. -/
theorem removeFile?_file {content : String} (h : tree.get? path = some (.file content)) :
    ∃ after, tree.removeFile? path = some after ∧
      (∀ other, after.locate? other = tree.locate? other) ∧ after.get? path = none ∧
      ∀ other, ¬ tree.Meet other path → after.get? other = tree.get? other := by
  obtain ⟨place, hlocate, hfile⟩ := locate?_of_get? h
  have hleaf : tree.nodeAt? place ≠ some .directory := by
    rw [hfile]
    exact nofun
  have hgone : (tree.without place).nodeAt? place = none := by
    rw [nodeAt?_without (ne_nil_of_not_directory hleaf), if_pos rfl]
  have honly : OnlyFiles tree (tree.without place) [place] := by
    refine ⟨List.forall_mem_singleton.mpr hleaf, ?_, fun other hoff ↦ ?_⟩
    · rw [List.forall_mem_singleton, hgone]
      exact nofun
    · have hne : other ≠ place := by
        rintro rfl
        exact hoff other List.mem_cons_self (List.prefix_refl other)
      by_cases hother : other = []
      · rw [hother, nodeAt?_nil, nodeAt?_nil]
      · rw [nodeAt?_without hother, if_neg hne]
  refine ⟨tree.without place, ?_, honly.locate?_eq, ?_, fun other hoff ↦ ?_⟩
  · rw [removeFile?, hlocate, Option.bind_eq_bind, Option.bind_some, hfile]
    rfl
  · rw [get?_of_locate? ((honly.locate?_eq path).trans hlocate), hgone]
  · refine honly.get?_eq fun around haround hmem ↦ hoff ⟨around, haround, ?_⟩
    rw [hlocate, List.mem_singleton.mp hmem]

/-! ### Moving a file -/

variable {source target : Path} {old new : Location}

/-- Nothing is moved to where no path leads. -/
theorem rename?_of_lost (h : tree.locate? target = none) : tree.rename? source target = none := by
  unfold rename?
  rw [h]
  cases source.endsInName with
  | false => rfl
  | true =>
    cases tree.locate? source with
    | none => rfl
    | some old =>
      show (tree.nodeAt? old).bind _ = none
      cases tree.nodeAt? old <;> rfl

/-- A tree with all that is at a place or below it at another, and nothing that was there. -/
def moved (tree : FileTree) (old new : Location) : FileTree :=
  ⟨(tree.nodes.filter (·.1 ≠ new)).map fun entry ↦ (movedPlace old new entry.1, entry.2)⟩

/-- Moving something to a place that it may have. -/
theorem rename?_of_mayReplace {node : FileNode} (hname : source.endsInName = true)
    (hsource : tree.locate? source = some old) (hnode : tree.nodeAt? old = some node)
    (htarget : tree.locate? target = some new) (habove : ¬ old <+: new)
    (hfree : ∀ other, tree.nodeAt? new = some other → tree.mayReplace node other new = true) :
    tree.rename? source target = some (tree.moved old new) := by
  have hne : old ≠ new := by
    rintro rfl
    exact habove (List.prefix_refl old)
  have hoff : old.isPrefixOf new = false := by
    rw [Bool.eq_false_iff, ne_eq, List.isPrefixOf_iff_prefix]
    exact habove
  unfold rename?
  rw [hname, hsource, htarget]
  simp only [Bool.not_true, Bool.false_eq_true, if_false, Option.bind_eq_bind, Option.bind_some,
    hnode, if_neg hne, hoff]
  cases hother : tree.nodeAt? new with
  | none => rfl
  | some other => exact if_pos (hfree other hother)

/-- What is not below the old place stays. -/
theorem movedPlace_of_not_below (h : ¬ old <+: place) : movedPlace old new place = place :=
  if_neg fun habove ↦ h (List.isPrefixOf_iff_prefix.mp habove)

/-- What moves goes to the new place or below it. -/
theorem movedPlace_of_below (new : Location) (h : old <+: place) :
    ∃ below, place = old ++ below ∧ movedPlace old new place = new ++ below := by
  obtain ⟨below, rfl⟩ := h
  refine ⟨below, rfl, ?_⟩
  rw [movedPlace, if_pos (List.isPrefixOf_iff_prefix.mpr (List.prefix_append old below)),
    List.drop_left]

/-- Where something is moved to, it is found. -/
theorem nodeAt?_moved_new (hold : old ≠ []) (hnew : new ≠ []) (hne : old ≠ new) :
    (tree.moved old new).nodeAt? new = tree.nodeAt? old := by
  rw [nodeAt?_of_ne hnew, moved, Entries.lookup_map_key old, Entries.lookup_filter_ne,
    if_neg hne, nodeAt?_of_ne hold]
  intro entry hentry
  have hremains : entry.1 ≠ new := by simpa using List.of_mem_filter hentry
  by_cases hbelow : old <+: entry.1
  · obtain ⟨below, hentry, hmoved⟩ := movedPlace_of_below new hbelow
    rw [hmoved, hentry, List.append_right_eq_self, List.append_right_eq_self]
  · rw [movedPlace_of_not_below hbelow]
    refine iff_of_false hremains fun heq ↦ hbelow ?_
    rw [heq]

/-- Where something was moved away from, nothing is found. -/
theorem nodeAt?_moved_old (hold : old ≠ []) (hup : ¬ new <+: old) :
    (tree.moved old new).nodeAt? old = none := by
  rw [nodeAt?_of_ne hold, moved, List.lookup_eq_none_iff]
  intro entry hentry
  obtain ⟨before, -, rfl⟩ := List.mem_map.mp hentry
  refine bne_iff_ne.mpr fun heq ↦ ?_
  by_cases hbelow : old <+: before.1
  · obtain ⟨below, -, hmoved⟩ := movedPlace_of_below new hbelow
    exact hup ⟨below, (heq.trans hmoved).symm⟩
  · rw [movedPlace_of_not_below hbelow] at heq
    exact hbelow (heq ▸ List.prefix_refl old)

/-- Elsewhere all is as before. -/
theorem nodeAt?_moved_of_not_below (hold : ¬ old <+: place) (hnew : ¬ new <+: place) :
    (tree.moved old new).nodeAt? place = tree.nodeAt? place := by
  by_cases hplace : place = []
  · rw [hplace, nodeAt?_nil, nodeAt?_nil]
  rw [nodeAt?_of_ne hplace, nodeAt?_of_ne hplace, moved, Entries.lookup_map_key place,
    Entries.lookup_filter_ne, if_neg]
  · rintro rfl
    exact hnew (List.prefix_refl place)
  · intro entry _
    by_cases hbelow : old <+: entry.1
    · obtain ⟨below, hentry, hmoved⟩ := movedPlace_of_below new hbelow
      rw [hmoved, hentry]
      exact iff_of_false (fun heq ↦ hnew ⟨below, heq⟩) fun heq ↦ hold ⟨below, heq⟩
    · rw [movedPlace_of_not_below hbelow]

/-- Moving a file to a place where no directory is leaves the old place empty. Nothing else changes,
and no path leads elsewhere for it. -/
theorem rename?_file {content : String} (hname : source.endsInName = true)
    (hfile : tree.get? source = some (.file content)) (htarget : tree.locate? target = some new)
    (hapart : ¬ tree.Meet source target) (hdirectory : tree.get? target ≠ some .directory) :
    ∃ after, tree.rename? source target = some after ∧
      (∀ other, after.locate? other = tree.locate? other) ∧
      after.get? target = some (.file content) ∧ after.get? source = none ∧
      ∀ other, ¬ tree.Meet other source → ¬ tree.Meet other target →
        after.get? other = tree.get? other := by
  obtain ⟨old, hsource, hnode⟩ := locate?_of_get? hfile
  rw [get?_of_locate? htarget] at hdirectory
  have hne : old ≠ new := by
    rintro rfl
    exact hapart ⟨old, hsource, htarget⟩
  have hleaf : tree.nodeAt? old ≠ some .directory := by
    rw [hnode]
    exact nofun
  have hdown : ¬ old <+: new := (locate?_inside htarget).not_below hleaf hne
  have hup : ¬ new <+: old := (locate?_inside hsource).not_below hdirectory hne.symm
  have hroot : old ≠ [] := ne_nil_of_not_directory hleaf
  have hmay : ∀ other, tree.nodeAt? new = some other →
      tree.mayReplace (.file content) other new = true := by
    intro other hother
    cases other with
    | file _ => rfl
    | directory => exact absurd hother hdirectory
  have hnew : (tree.moved old new).nodeAt? new = some (.file content) := by
    rw [nodeAt?_moved_new hroot (ne_nil_of_not_directory hdirectory) hne, hnode]
  have hold : (tree.moved old new).nodeAt? old = none := nodeAt?_moved_old hroot hup
  have honly : OnlyFiles tree (tree.moved old new) [old, new] := by
    refine ⟨?_, ?_, fun place hoff ↦ ?_⟩
    · exact List.forall_mem_cons.mpr ⟨hleaf, List.forall_mem_singleton.mpr hdirectory⟩
    · rw [List.forall_mem_cons, List.forall_mem_singleton, hold, hnew]
      exact ⟨nofun, nofun⟩
    · exact nodeAt?_moved_of_not_below (hoff old (by simp)) (hoff new (by simp))
  refine ⟨tree.moved old new, rename?_of_mayReplace hname hsource hnode htarget hdown hmay,
    honly.locate?_eq, ?_, ?_, fun other hoff hoff' ↦ ?_⟩
  · rw [get?_of_locate? ((honly.locate?_eq target).trans htarget), hnew]
  · rw [get?_of_locate? ((honly.locate?_eq source).trans hsource), hold]
  · refine honly.get?_eq fun place hplace hmem ↦ ?_
    rcases List.mem_pair.mp hmem with rfl | rfl
    · exact hoff ⟨place, hplace, hsource⟩
    · exact hoff' ⟨place, hplace, htarget⟩

end DebugLink.FileTree
