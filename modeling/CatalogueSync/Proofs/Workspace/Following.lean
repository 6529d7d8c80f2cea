import CatalogueSync.Workspace.Writing
import Mathlib.Data.List.Induction

/-!
# Where paths lead

A path leads somewhere exactly when all its segments but the last lead from directories
(`Workspace.follow_concat_eq_ok_iff`). Directories that are kept keep the paths through them
(`Workspace.follow_of_keepsDirectories`). A name that is looked up at a path stands in the directory
where the path without it leads (`Workspace.node?_name_eq_some_iff`).
-/

set_option autoImplicit false

namespace CatalogueSync

/-- A tree in which all directories of another one are there. -/
def FileTree.KeepsDirectories (t t' : FileTree) : Prop :=
  ∀ loc, t.node? loc = some .directory → t'.node? loc = some .directory

/-- The text that is read where a node stands. -/
def Node.text : Node → Except IoError Text
  | directory => .error .isADirectory
  | file contents =>
    match contents.toText? with
    | some s => .ok s
    | none => .error .notText

namespace Path

theorem IsName.ne_nil {segment : Text} (h : IsName segment) : segment ≠ [] := by
  rintro rfl
  exact Bool.noConfusion h.1

theorem isName_of_head? {segment : Text} (hne : segment ≠ []) (hdot : segment.head? ≠ some '.') :
    IsName segment := by
  constructor
  · rw [isStill, Bool.or_eq_false_iff, decide_eq_false_iff_not, decide_eq_false_iff_not]
    refine ⟨hne, ?_⟩
    rintro rfl
    exact hdot rfl
  · rintro rfl
    exact hdot rfl

/-- The segments that names are added to when they are looked up at a path. -/
def base (p : Path) : List Text :=
  if p.isEmpty then []
  else if p.segments.getLast? = some [] then p.segments.dropLast
  else p.segments

theorem join_names {names : List Text} (h : (⟨names⟩ : Path).isAbsolute = false) (p : Path) :
    p.join ⟨names⟩ = ⟨p.base ++ names⟩ := by
  unfold join base
  rw [h, Bool.false_or]
  split
  · rfl
  · split <;> rfl

theorem isAbsolute_of_names {names : List Text} (h : ∀ name ∈ names, IsName name) :
    (⟨names⟩ : Path).isAbsolute = false := by
  unfold isAbsolute
  split
  · rename_i hnames
    exact absurd rfl (h [] (by simp_all)).ne_nil
  · rfl

theorem isAbsolute_name (name : Text) : (⟨[name]⟩ : Path).isAbsolute = false := by
  cases name <;> rfl

theorem join_name (p : Path) (name : Text) : p.join ⟨[name]⟩ = ⟨p.base ++ [name]⟩ :=
  join_names (isAbsolute_name name) p

theorem base_isPrefix (p : Path) : p.base <+: p.segments := by
  unfold base
  split
  · exact List.nil_prefix
  · split
    · exact List.dropLast_prefix _
    · exact List.prefix_rfl

theorem isAbsolute_base_append_names {names : List Text}
    (h : (⟨names⟩ : Path).isAbsolute = false) (hne : names ≠ []) (p : Path) :
    (⟨p.base ++ names⟩ : Path).isAbsolute = p.isAbsolute := by
  obtain ⟨segments⟩ := p
  obtain ⟨name, rest, rfl⟩ := List.exists_cons_of_ne_nil hne
  match segments with
  | [] => exact h
  | [[]] => exact h
  | [c :: s] => rfl
  | [] :: s :: ss =>
    unfold base
    rw [if_neg (by simp [isEmpty, toText, joinSegments])]
    split
    · cases ss <;> simp [isAbsolute]
    · rfl
  | (c :: s) :: s' :: ss =>
    unfold base
    rw [if_neg (by simp [isEmpty, toText, joinSegments])]
    split <;> rfl

theorem isAbsolute_base_append (p : Path) (name : Text) :
    (⟨p.base ++ [name]⟩ : Path).isAbsolute = p.isAbsolute :=
  isAbsolute_base_append_names (isAbsolute_name name) (List.cons_ne_nil _ _) p

theorem trimStill_isPrefix (ss : List Text) : trimStill ss <+: ss := by
  rw [trimStill, ← List.reverse_suffix, List.reverse_reverse]
  exact List.dropWhile_suffix _

/-- The parent starts in the same directory and lies on the way there, unless that is where the path
starts. -/
theorem of_parent?_eq_some {p q : Path} (h : p.parent? = some q) :
    q.isAbsolute = p.isAbsolute ∧
      (q.segments <+: p.segments.dropLast ∨ q = empty ∨ q = ⟨[[], []]⟩) := by
  obtain ⟨segments⟩ := p
  cases segments with
  | nil => cases h
  | cons s ss =>
    simp only [parent?] at h
    split at h
    · split at h
      · cases h
      · rename_i hne
        obtain rfl := Option.some.inj h
        refine ⟨?_, .inr (.inl rfl)⟩
        cases s with
        | nil => exact absurd rfl hne
        | cons c s => rfl
    · rename_i last above hdrop
      obtain rfl := Option.some.inj h
      have hsuffix : last :: above <:+ ss.reverse := hdrop ▸ List.dropWhile_suffix _
      obtain ⟨init, final, rfl⟩ : ∃ init final, ss = init ++ [final] := by
        refine ⟨_, _, (List.dropLast_concat_getLast (l := ss) ?_).symm⟩
        rintro rfl
        simp at hdrop
      have hbegin : above.reverse <+: init := by
        rw [List.reverse_append, List.reverse_singleton, List.singleton_append] at hsuffix
        rw [← List.reverse_suffix, List.reverse_reverse]
        rcases List.suffix_cons_iff.1 hsuffix with hall | hinit
        · exact (List.cons.inj hall).2 ▸ List.suffix_rfl
        · exact (List.suffix_cons last above).trans hinit
      have hrest : trimStill above.reverse <+: init := (trimStill_isPrefix _).trans hbegin
      split
      · rename_i hroot
        rw [hroot.1]
        exact ⟨by cases init <;> rfl, .inr (.inr rfl)⟩
      · rename_i hroot
        rw [← List.cons_append, List.dropLast_concat]
        refine ⟨?_, .inl ((List.prefix_cons_inj s).2 hrest)⟩
        cases s with
        | cons c s => rfl
        | nil =>
          have hne : trimStill above.reverse ≠ [] := fun hnil => hroot ⟨rfl, hnil⟩
          obtain ⟨r, rs, hrs⟩ := List.exists_cons_of_ne_nil hne
          rw [hrs]
          cases init <;> rfl

theorem segments_of_isEmpty {p : Path} (h : p.isEmpty) : p.segments = [] ∨ p.segments = [[]] := by
  obtain ⟨segments⟩ := p
  match segments with
  | [] => exact .inl rfl
  | [[]] => exact .inr rfl
  | [_ :: _] => cases h
  | (_ :: _) :: _ :: _ => cases h
  | [] :: _ :: _ => simp [isEmpty, toText, joinSegments] at h

theorem isAbsolute_of_isEmpty {p : Path} (h : p.isEmpty) : p.isAbsolute = false := by
  rcases segments_of_isEmpty h with hnil | hnil <;> rw [isAbsolute, hnil]

theorem base_isPrefix_of_parent? {p q : Path} (h : p.parent? = some q) : q.base <+: p.base := by
  obtain ⟨habsolute, hsegments⟩ := of_parent?_eq_some h
  have hdropLast : p.segments.dropLast <+: p.base := by
    unfold base
    split
    · rename_i hempty
      rcases segments_of_isEmpty hempty with hnil | hnil <;> simp [hnil]
    · split
      · exact List.prefix_rfl
      · exact List.dropLast_prefix _
  rcases hsegments with hbegin | rfl | rfl
  · exact (base_isPrefix q).trans (hbegin.trans hdropLast)
  · exact List.nil_prefix
  · -- both start at the top
    obtain ⟨segments⟩ := p
    match segments with
    | [] => cases habsolute
    | [s] => cases s <;> cases habsolute
    | (_ :: _) :: _ => cases habsolute
    | [] :: _ :: _ => exact (List.prefix_append [[]] _).trans hdropLast

end Path

namespace Workspace

variable {t t' : FileTree} {loc dir : Location} {segments : List Text} {segment : Text}

theorem step_name (h : Path.IsName segment) (dir : Location) :
    step dir segment = dir ++ [segment] := by
  rw [step, if_neg (by simp [h.1]), if_neg h.2]

theorem follow_append_eq_ok_iff {more : List Text} :
    follow t loc (segments ++ more) = .ok dir ↔
      ∃ middle, follow t loc segments = .ok middle ∧ follow t middle more = .ok dir := by
  induction segments generalizing loc with
  | nil => simp [follow]
  | cons s ss ih =>
    rw [List.cons_append, follow, follow]
    split
    · simp
    · simp
    · split
      · simp
      · exact ih

theorem follow_of_isPrefix {more : List Text} (hbegin : segments <+: more)
    (h : ∃ loc', follow t loc more = .ok loc') : ∃ loc', follow t loc segments = .ok loc' := by
  obtain ⟨last, hlast⟩ := h
  obtain ⟨rest, rfl⟩ := hbegin
  obtain ⟨middle, hmiddle, -⟩ := follow_append_eq_ok_iff.1 hlast
  exact ⟨middle, hmiddle⟩

/-- What segments lead on from is a directory. -/
theorem node?_of_follow (h : follow t loc segments = .ok dir) (hne : segments ≠ []) :
    t.node? loc = some .directory := by
  cases segments with
  | nil => exact absurd rfl hne
  | cons s ss =>
    rw [follow] at h
    split at h
    · cases h
    · cases h
    · assumption

/-- Segments lead somewhere when those before the last lead to a directory and the last is not too
long. -/
theorem follow_concat_eq_ok_iff :
    follow t loc (segments ++ [segment]) = .ok dir ↔
      ∃ middle, follow t loc segments = .ok middle ∧ t.node? middle = some .directory ∧
        Path.isLongName segment = false ∧ step middle segment = dir := by
  rw [follow_append_eq_ok_iff]
  refine exists_congr fun middle => and_congr_right fun _ => ?_
  rw [follow]
  split
  · rename_i h
    simp [h]
  · rename_i h
    simp [h]
  · rename_i h
    cases Path.isLongName segment <;> simp [h, follow]

/-- Names lead to where something stands. -/
theorem follow_names {names : List Text} {node : Node}
    (hshort : ∀ name ∈ names, Path.isLongName name = false)
    (hnode : t.node? (loc ++ names) = some node) : follow t loc names = .ok (loc ++ names) := by
  induction names using List.reverseRecOn generalizing node with
  | nil => simp [follow]
  | append_singleton names name ih =>
    rw [← List.append_assoc] at hnode ⊢
    have hdirectory := FileTree.node?_of_node?_append hnode
    have hname := FileTree.isEntryName_of_node? hnode name (by simp)
    exact follow_concat_eq_ok_iff.2
      ⟨loc ++ names, ih (fun other hmem => hshort other (List.mem_append_left _ hmem)) hdirectory,
        hdirectory, hshort name (by simp), step_name hname.1 _⟩

theorem follow_of_keepsDirectories (h : t.KeepsDirectories t')
    (hfollow : follow t loc segments = .ok dir) : follow t' loc segments = .ok dir := by
  induction segments using List.reverseRecOn generalizing dir with
  | nil => exact hfollow
  | append_singleton ss s ih =>
    obtain ⟨middle, hmiddle, hdirectory, hshort, hstep⟩ := follow_concat_eq_ok_iff.1 hfollow
    exact follow_concat_eq_ok_iff.2 ⟨middle, ih hmiddle, h middle hdirectory, hshort, hstep⟩

/-- Segments lead to the same location in a larger tree. -/
theorem follow_inj_of_keepsDirectories {loc' : Location} (h : t.KeepsDirectories t')
    (hfollow : follow t loc segments = .ok dir) (hfollow' : follow t' loc segments = .ok loc') :
    dir = loc' := by
  rw [follow_of_keepsDirectories h hfollow] at hfollow'
  exact Except.ok.inj hfollow'

section lookup

variable {w : Workspace} {p : Path} {node : Node}

theorem node?_eq_some_iff :
    w.node? p = some node ↔
      obstacle? p = none ∧
        ∃ loc, follow w.tree (w.start p) p.segments = .ok loc ∧ w.tree.node? loc = some node := by
  unfold node? find locate
  cases obstacle? p with
  | some e => simp
  | none =>
    simp only [reach_eq_follow]
    cases follow w.tree (w.start p) p.segments with
    | error e => simp
    | ok loc => cases hnode : w.tree.node? loc <;> simp [hnode]

theorem node?_name_eq_some_iff {base : List Text} {name : Text} (hname : Path.IsName name) :
    w.node? ⟨base ++ [name]⟩ = some node ↔
      obstacle? ⟨base ++ [name]⟩ = none ∧ Path.isLongName name = false ∧
        ∃ dir, follow w.tree (w.start ⟨base ++ [name]⟩) base = .ok dir ∧
          w.tree.node? (dir ++ [name]) = some node := by
  rw [node?_eq_some_iff]
  refine and_congr_right fun _ => ?_
  constructor
  · rintro ⟨loc, hfollow, hnode⟩
    obtain ⟨dir, hdir, -, hshort, rfl⟩ := follow_concat_eq_ok_iff.1 hfollow
    rw [step_name hname] at hnode
    exact ⟨hshort, dir, hdir, hnode⟩
  · rintro ⟨hshort, dir, hdir, hnode⟩
    have hdirectory := FileTree.node?_of_node?_append hnode
    refine ⟨dir ++ [name], ?_, hnode⟩
    exact follow_concat_eq_ok_iff.2 ⟨dir, hdir, hdirectory, hshort, step_name hname dir⟩

theorem isDirectory_iff : w.isDirectory p ↔ w.node? p = some .directory := by
  rw [isDirectory, decide_eq_true_iff]

theorem isFile_of_node? {contents : Contents} (h : w.node? p = some (.file contents)) :
    w.isFile p := by
  rw [isFile, h]

/-- Reading depends on nothing but what stands at the path. -/
theorem readText_of_node? (h : w.node? p = some node) : w.readText p = node.text := by
  unfold node? at h
  unfold readText
  split at h
  · rename_i loc found hfind
    obtain rfl := Option.some.inj h
    rw [hfind]
    cases found <;> rfl
  · cases h

theorem readText_eq_ok_iff {s : Text} :
    w.readText p = .ok s ↔ w.node? p = some (.file (.text s)) := by
  constructor
  · intro h
    cases hnode : w.node? p with
    | none =>
      unfold node? at hnode
      unfold readText at h
      split at hnode
      · cases hnode
      · rename_i hfind
        rw [hfind] at h
        cases h
    | some node =>
      rw [readText_of_node? hnode] at h
      match node with
      | .file (.text t) =>
        obtain rfl := Except.ok.inj h
        rfl
      | .file (.binary _) => cases h
      | .directory => cases h
  · intro h
    rw [readText_of_node? h]
    rfl

end lookup

end Workspace

end CatalogueSync
