import CatalogueSync.Proofs.Workspace.Effect

/-!
# Trees and how they were created

A tree that was created by putting one entry in after the other has a file for each file among them
that can have its name, and directories on the way (`FileTree.Holds`). So it does not matter in
which order they were put in (`FileTree.node?_ofEntries_of_perm`).
-/

set_option autoImplicit false

namespace CatalogueSync

namespace FileTree

/-- Entries that can all be put in one tree: nothing else stands where a file is or below it. -/
def Fit (es : List (Location × Node)) : Prop :=
  ∀ e ∈ es, e.2 ≠ .directory → e.1 ≠ [] ∧ ∀ e' ∈ es, e.1 <+: e'.1 → e' = e

instance (es : List (Location × Node)) : Decidable (Fit es) :=
  inferInstanceAs (Decidable (∀ e ∈ es, e.2 ≠ .directory → _ ∧ ∀ e' ∈ es, _ → e' = e))

/-- An entry whose location is made of names that something in a directory can have. -/
def IsNamed (e : Location × Node) : Prop :=
  ∀ name ∈ e.1, Path.IsEntryName name

instance (e : Location × Node) : Decidable (IsNamed e) :=
  inferInstanceAs (Decidable (∀ name ∈ e.1, Path.IsEntryName name))

/-- A directory at a location or on the way there. -/
def IsOnWay (loc : Location) (e : Location × Node) : Prop :=
  match e.2 with
  | .directory => loc <+: e.1
  | .file _ => loc <+: e.1.dropLast

/-- A tree in which the files are those among some entries, and the directories those among them or
on the way to them. -/
structure Holds (es : List (Location × Node)) (t : FileTree) : Prop where
  files : ∀ loc contents, t.node? loc = some (.file contents) ↔ (loc, .file contents) ∈ es
  directories : ∀ loc, t.node? loc = some .directory ↔ loc = [] ∨ ∃ e ∈ es, IsOnWay loc e

variable {t t' : FileTree} {loc : Location} {es es' : List (Location × Node)}
  {e : Location × Node} {contents : Contents}

theorem IsOnWay.isPrefix (h : IsOnWay loc e) : loc <+: e.1 := by
  unfold IsOnWay at h
  split at h
  · exact h
  · exact h.trans (List.dropLast_prefix _)

theorem Fit.mono (h : Fit es) (hsub : ∀ e ∈ es', e ∈ es) : Fit es' :=
  fun e he hfile => (h e (hsub e he) hfile).imp_right
    fun hsingle e' he' => hsingle e' (hsub e' he')

theorem exists_makeDirectory {dir : Location} {name : Text} (hname : Path.IsEntryName name)
    (hdir : t.node? dir = some .directory) (hnone : t.node? (dir ++ [name]) = none) :
    ∃ t', t.makeDirectory dir name hname = .ok t' := by
  unfold makeDirectory
  split
  · simp_all
  · simp_all
  · exact ⟨_, if_neg (by simp [hnone])⟩

theorem exists_putFile {dir : Location} {name : Text} (hname : Path.IsEntryName name)
    (hdir : t.node? dir = some .directory) (hfile : t.node? (dir ++ [name]) ≠ some .directory)
    (contents : Contents) : ∃ t', t.putFile dir name contents hname = .ok t' := by
  unfold putFile
  split
  · simp_all
  · simp_all
  · exact ⟨_, dif_neg hfile⟩

theorem not_concat_isPrefix (dir : Location) (name : Text) : ¬ dir ++ [name] <+: dir := by
  intro hbegin
  have hlength := hbegin.length_le
  rw [List.length_append, List.length_singleton] at hlength
  omega

/-- Directories are made all the way, if no file is there. -/
theorem node?_withDirectory {above : List Text} (hnames : ∀ name ∈ above, Path.IsEntryName name)
    (hfree : ∀ loc, loc <+: above.reverse → ∀ contents, t.node? loc ≠ some (.file contents))
    (loc : Location) :
    (t.withDirectory above hnames).node? loc =
      if loc <+: above.reverse then some .directory else t.node? loc := by
  induction above generalizing loc with
  | nil =>
    rw [withDirectory]
    split
    · rename_i hnil
      rw [List.reverse_nil, List.prefix_nil] at hnil
      rw [hnil, node?_nil]
    · rfl
  | cons name above ih =>
    rw [List.reverse_cons] at hfree ⊢
    have hfree' : ∀ loc, loc <+: above.reverse → ∀ contents, t.node? loc ≠ some (.file contents) :=
      fun loc hloc => hfree loc (hloc.trans (List.prefix_append ..))
    obtain ⟨hname, habove⟩ := List.forall_mem_cons.1 hnames
    rw [withDirectory]
    dsimp only
    split
    · rename_i hdir
      split
      · rename_i hbegin
        obtain ⟨rest, hrest⟩ := hbegin
        rw [← hrest] at hdir
        exact node?_of_node?_append_append hdir
      · rfl
    · rename_i hnot
      have hnone : t.node? (above.reverse ++ [name]) = none := by
        cases hnode : t.node? (above.reverse ++ [name]) with
        | none => rfl
        | some node =>
          cases node with
          | directory => exact absurd hnode hnot
          | file found => exact absurd hnode (hfree _ List.prefix_rfl found)
      have hroom : (t.withDirectory above habove).node? (above.reverse ++ [name]) = none := by
        rw [ih habove hfree', if_neg (not_concat_isPrefix _ _), hnone]
      have hmade : (t.withDirectory above habove).node? above.reverse = some .directory := by
        rw [ih habove hfree', if_pos List.prefix_rfl]
      obtain ⟨t', ht'⟩ := exists_makeDirectory hname hmade hroom
      rw [ht']
      dsimp only
      rw [(Workspace.node?_of_makeDirectory ht').2, ih habove hfree']
      by_cases hloc : loc = above.reverse ++ [name] <;> simp [hloc, List.prefix_concat_iff]

/-- A file is put at its location, and directories on the way. -/
theorem node?_withFile {name : Text} {above : List Text}
    (hnames : ∀ other ∈ name :: above, Path.IsEntryName other)
    (hfree : ∀ loc, loc <+: above.reverse → ∀ contents, t.node? loc ≠ some (.file contents))
    (hroom : t.node? (above.reverse ++ [name]) ≠ some .directory) (contents : Contents)
    (loc : Location) :
    (t.withFile contents (name :: above) hnames).node? loc =
      if loc = above.reverse ++ [name] then some (.file contents)
      else if loc <+: above.reverse then some .directory else t.node? loc := by
  obtain ⟨hname, habove⟩ := List.forall_mem_cons.1 hnames
  have hdirs := node?_withDirectory habove hfree
  have hroom' : (t.withDirectory above habove).node? (above.reverse ++ [name]) ≠
      some .directory := by
    rwa [hdirs, if_neg (not_concat_isPrefix _ _)]
  obtain ⟨t', ht'⟩ :=
    exists_putFile hname ((hdirs _).trans (if_pos List.prefix_rfl)) hroom' contents
  rw [withFile, ht']
  dsimp only
  rw [(Workspace.node?_of_putFile ht').2, hdirs]

theorem withEntry_directory (hnamed : ∀ name ∈ loc, Path.IsEntryName name) :
    t.withEntry loc .directory =
      t.withDirectory loc.reverse fun name hmem => hnamed name (List.mem_reverse.1 hmem) :=
  dif_pos fun name hmem => hnamed name (List.mem_reverse.1 hmem)

theorem withEntry_file {name : Text} {above : List Text}
    (hnames : ∀ other ∈ name :: above, Path.IsEntryName other) (contents : Contents) :
    t.withEntry (above.reverse ++ [name]) (.file contents) =
      t.withFile contents (name :: above) hnames := by
  have hreverse : (above.reverse ++ [name]).reverse = name :: above := by simp
  unfold withEntry
  simp only [hreverse]
  exact dif_pos hnames

theorem holds_empty : Holds [] empty where
  files := by
    intro loc contents
    cases loc <;> simp [node?, empty]
  directories := by
    intro loc
    cases loc <;> simp [node?, empty]

theorem Fit.eq_of_isPrefix (h : Fit (es ++ [e])) (hmem : (loc, .file contents) ∈ es)
    (hbegin : loc <+: e.1) : e = (loc, .file contents) :=
  (h _ (List.mem_append_left _ hmem) (by simp)).2 e (by simp) hbegin

/-- A tree holds one more entry if that and what is on the way to it is all that is new. -/
theorem Holds.concat (h : Holds es t) (hfit : Fit (es ++ [e])) (hself : t'.node? e.1 = some e.2)
    (hway : ∀ loc, loc ≠ e.1 → IsOnWay loc e → t'.node? loc = some .directory)
    (hrest : ∀ loc, loc ≠ e.1 → ¬ IsOnWay loc e → t'.node? loc = t.node? loc) :
    Holds (es ++ [e]) t' where
  files := by
    intro loc contents
    rw [List.mem_append, List.mem_singleton]
    by_cases hloc : loc = e.1
    · subst hloc
      rw [hself, Option.some.injEq]
      constructor
      · intro hnode
        exact .inr (Prod.ext rfl hnode.symm)
      · rintro (hmem | heq)
        · exact congrArg Prod.snd (hfit.eq_of_isPrefix hmem List.prefix_rfl)
        · exact (congrArg Prod.snd heq).symm
    · have hne : (loc, Node.file contents) ≠ e := fun heq => hloc (congrArg Prod.fst heq)
      by_cases hon : IsOnWay loc e
      · rw [hway loc hloc hon]
        refine iff_of_false (by simp) ?_
        rintro (hmem | heq)
        · exact hne (hfit.eq_of_isPrefix hmem hon.isPrefix).symm
        · exact hne heq
      · rw [hrest loc hloc hon, h.files]
        simp [hne]
  directories := by
    intro loc
    by_cases hloc : loc = e.1
    · subst hloc
      rw [hself, Option.some.injEq]
      cases hnode : e.2 with
      | directory =>
        exact iff_of_true rfl (.inr ⟨e, by simp, by simp [IsOnWay, hnode]⟩)
      | file contents =>
        obtain ⟨hne, hsingle⟩ := hfit e (by simp) (by simp [hnode])
        refine iff_of_false (by simp) ?_
        rintro (hnil | ⟨e', he', hon⟩)
        · exact hne hnil
        · rw [hsingle e' he' hon.isPrefix, IsOnWay, hnode] at hon
          have hlength : e.1.length ≤ e.1.dropLast.length := List.IsPrefix.length_le hon
          rw [List.length_dropLast] at hlength
          have hpos := List.length_pos_iff.2 hne
          omega
    · by_cases hon : IsOnWay loc e
      · exact iff_of_true (hway loc hloc hon) (.inr ⟨e, by simp, hon⟩)
      · rw [hrest loc hloc hon, h.directories]
        simp [or_and_right, exists_or, hon]

theorem Holds.withEntry (h : Holds es t) (hfit : Fit (es ++ [e])) (hnamed : IsNamed e) :
    Holds (es ++ [e]) (t.withEntry e.1 e.2) := by
  obtain ⟨loc, node⟩ := e
  cases node with
  | directory =>
    have hnode (loc' : Location) : (t.withEntry loc .directory).node? loc' =
        if loc' <+: loc then some .directory else t.node? loc' := by
      rw [withEntry_directory hnamed, node?_withDirectory] <;> rw [List.reverse_reverse]
      intro before hbegin contents hfile
      cases hfit.eq_of_isPrefix ((h.files _ _).1 hfile) hbegin
    apply h.concat hfit
    · rw [hnode, if_pos List.prefix_rfl]
    · exact fun loc' _ hon => by rw [hnode, if_pos hon.isPrefix]
    · exact fun loc' _ hon => by rw [hnode, if_neg (show ¬ loc' <+: loc from hon)]
  | file contents =>
    have hne : loc ≠ [] := (hfit (loc, .file contents) (by simp) (by simp)).1
    obtain ⟨above, name, rfl⟩ : ∃ above name, loc = above.reverse ++ [name] :=
      ⟨loc.dropLast.reverse, loc.getLast hne, by
        rw [List.reverse_reverse, List.dropLast_concat_getLast]⟩
    have hnames : ∀ other ∈ name :: above, Path.IsEntryName other :=
      fun other hmem => hnamed other (by simpa [or_comm] using hmem)
    have hway : ∀ loc', IsOnWay loc' (above.reverse ++ [name], .file contents) ↔
        loc' <+: above.reverse := by
      intro loc'
      rw [IsOnWay, List.dropLast_concat]
    have hfree : ∀ before, before <+: above.reverse →
        ∀ found, t.node? before ≠ some (.file found) := by
      intro before hbegin found hfile
      have heq := hfit.eq_of_isPrefix ((h.files _ _).1 hfile) (hbegin.trans (List.prefix_append ..))
      obtain rfl := congrArg Prod.fst heq
      exact not_concat_isPrefix above.reverse name hbegin
    have hroom : t.node? (above.reverse ++ [name]) ≠ some .directory := by
      rw [Ne, h.directories]
      rintro (hnil | ⟨e', he', hon⟩)
      · exact hne hnil
      · have heq := (hfit (above.reverse ++ [name], .file contents) (by simp) (by simp)).2 e'
          (List.mem_append_left _ he') hon.isPrefix
        rw [heq, hway] at hon
        exact not_concat_isPrefix above.reverse name hon
    have hnode := node?_withFile hnames hfree hroom contents
    rw [← withEntry_file hnames] at hnode
    apply h.concat hfit
    · rw [hnode, if_pos rfl]
    · intro loc' hloc hon
      rw [hnode, if_neg hloc, if_pos ((hway loc').1 hon)]
    · intro loc' hloc hon
      rw [hnode, if_neg hloc, if_neg (hon ∘ (hway loc').2)]

/-- A tree holds the entries that it was created from, but for those that nothing can be. -/
theorem holds_ofEntries (h : Fit es) :
    Holds (es.filter fun e => IsNamed e) (ofEntries es) := by
  induction es using List.reverseRecOn with
  | nil => exact holds_empty
  | append_singleton es e ih =>
    have hholds := ih (h.mono fun e' => List.mem_append_left _)
    have hconcat : ofEntries (es ++ [e]) = (ofEntries es).withEntry e.1 e.2 := by
      rw [ofEntries, List.foldl_append]
      rfl
    rw [hconcat, List.filter_append]
    by_cases hnamed : IsNamed e
    · rw [show [e].filter (fun e => IsNamed e) = [e] by simp [hnamed]]
      refine hholds.withEntry (h.mono fun e' he' => ?_) hnamed
      exact List.mem_append.2
        ((List.mem_append.1 he').imp_left fun hmem => (List.mem_filter.1 hmem).1)
    · have hskip : (ofEntries es).withEntry e.1 e.2 = ofEntries es :=
        dif_neg fun hnames => hnamed fun name hmem => hnames name (List.mem_reverse.2 hmem)
      rw [hskip, show [e].filter (fun e => IsNamed e) = [] by simp [hnamed], List.append_nil]
      exact hholds

/-- It does not matter in which order entries were put in. -/
theorem node?_ofEntries_of_perm (h : Fit es) (hperm : es.Perm es') (loc : Location) :
    (ofEntries es').node? loc = (ofEntries es).node? loc := by
  have hholds := holds_ofEntries h
  have hholds' := holds_ofEntries (h.mono fun e => hperm.mem_iff.2)
  have hperm' := hperm.filter fun e => IsNamed e
  apply Option.ext
  intro node
  cases node with
  | file contents => rw [hholds.files, hholds'.files, hperm'.mem_iff]
  | directory => simp only [hholds.directories, hholds'.directories, hperm'.mem_iff]

end FileTree

end CatalogueSync
