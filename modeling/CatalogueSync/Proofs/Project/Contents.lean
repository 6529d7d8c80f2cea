import CatalogueSync.Proofs.Project.Locales

/-!
# The contents of a locale's files

What a locale's files hold after a synchronisation depends on nothing but what they held and on the
texts that were planned for them (`LocalePlan.contents?_of_gives_applyAll`), also when their
directory was only made on the way: no other locale has a file in their place
(`Draft.contents?_of_gives_applyAll_apart`).
-/

set_option autoImplicit false

namespace CatalogueSync

/-- A path that ends in a name can lead to a file. -/
def Path.CanBeFile (p : Path) : Prop :=
  Workspace.obstacle? p = none ∧
    ∀ name ∈ p.segments.getLast?, Path.IsName name ∧ Path.isLongName name = false

instance (p : Path) : Decidable p.CanBeFile :=
  inferInstanceAs (Decidable (_ ∧ _))

/-- What a file holds once a draft was applied for it where its directory is there. Nothing is
written in order to leave an empty text. -/
def Draft.contentsAfter (d : Draft) : Option Contents → Option Contents
  | some (.text s) =>
    if d.text = [] ∧ ¬ d.path.CanBeFile then some (.text s) else some (.text d.text)
  | contents? => if d.text = [] then contents? else some (.text d.text)

/-- The path of the catalogues can be followed up to their directory. -/
def Project.ReachesCatalogues (p : Project) (w : Workspace) : Prop :=
  ∃ dir, Workspace.follow w.tree (w.start p.messagesRoot) p.messagesRoot.base = .ok dir

variable {p : Project} {w w' : Workspace} {d : Draft} {ds : List Draft} {files : List Text}

section draft

variable {name : Text}

@[simp]
theorem Draft.contentsAfter_contentsAfter (d : Draft) (contents? : Option Contents) :
    d.contentsAfter (d.contentsAfter contents?) = d.contentsAfter contents? := by
  by_cases htext : d.text = [] <;> by_cases hpath : d.path.CanBeFile <;>
    rcases contents? with _ | _ | _ <;> simp [contentsAfter, htext, hpath]

theorem Project.ReachesCatalogues.of_leaves {written : Location → Prop}
    (h : p.ReachesCatalogues w) (hleaves : Workspace.Leaves written w w') :
    p.ReachesCatalogues w' := by
  obtain ⟨dir, hdir⟩ := h
  rw [← Workspace.start_eq_of_home hleaves.home rfl] at hdir
  exact ⟨dir, Workspace.follow_of_keepsDirectories hleaves.directories hdir⟩

theorem Project.ReachesCatalogues.of_node? {node : Node}
    (h : w.node? ⟨p.messagesRoot.base ++ [name]⟩ = some node) : p.ReachesCatalogues w := by
  obtain ⟨-, loc, hloc, -⟩ := Workspace.node?_eq_some_iff.1 h
  rw [Workspace.start_eq_of_home rfl (Path.isAbsolute_base_append _ _)] at hloc
  exact Workspace.follow_of_isPrefix (List.prefix_append ..) ⟨loc, hloc⟩

/-- Only a path that ends in a name leads to a file. -/
theorem Path.canBeFile_of_node? {q : Path} {contents : Contents}
    (h : w.node? q = some (.file contents)) : q.CanBeFile := by
  obtain ⟨segments⟩ := q
  obtain ⟨hobstacle, loc, hloc, hnode⟩ := Workspace.node?_eq_some_iff.1 h
  refine ⟨hobstacle, fun name hlast => ?_⟩
  obtain ⟨above, rfl⟩ := List.getLast?_eq_some_iff.1 hlast
  obtain ⟨dir, -, hdir, hshort, hstep⟩ := Workspace.follow_concat_eq_ok_iff.1 hloc
  refine ⟨?_, hshort⟩
  -- any other segment leads to the directory or to the one above it
  by_contra hname
  rw [Workspace.step] at hstep
  split at hstep
  · rw [hstep, hnode] at hdir
    cases hdir
  · split at hstep
    · obtain ⟨more, hmore⟩ := List.dropLast_prefix dir
      rw [← hmore, hstep] at hdir
      rw [FileTree.node?_of_node?_append_append hdir] at hnode
      cases hnode
    · rename_i hstill hup
      exact hname ⟨Bool.eq_false_iff.2 hstill, hup⟩

theorem Path.canBeFile_of_write {q : Path} {contents : Text}
    (h : w.write q contents = (w', .ok ())) : q.CanBeFile :=
  canBeFile_of_node? (Workspace.leaves_of_write h).2

/-- A text in a directory that can be reached can be read where paths can lead to it. -/
theorem Project.ReachesCatalogues.node?_of_contents? {s : Text} (h : p.ReachesCatalogues w)
    (hpath : (⟨p.messagesRoot.base ++ [name]⟩ : Path).CanBeFile)
    (hcontents : w.tree.contents? (w.target ⟨p.messagesRoot.base ++ [name]⟩) = some (.text s)) :
    w.node? ⟨p.messagesRoot.base ++ [name]⟩ = some (.file (.text s)) := by
  obtain ⟨hobstacle, hlast⟩ := hpath
  obtain ⟨hname, hshort⟩ := hlast name (by simp)
  obtain ⟨dir, hdir⟩ := h
  rw [Workspace.target_base_name hname, FileTree.contents?_eq_some_iff] at hcontents
  have hstart : w.start ⟨p.messagesRoot.base ++ [name]⟩ = w.start p.messagesRoot :=
    Workspace.start_eq_of_home rfl (Path.isAbsolute_base_append _ _)
  have htarget : dir = w.target p.messagesRoot := by
    rw [← Workspace.target_base w p.messagesRoot name, hstart]
    exact Workspace.eq_foldl_of_follow hdir
  refine (Workspace.node?_name_eq_some_iff hname).2 ⟨hobstacle, hshort, dir, ?_, ?_⟩
  · rw [hstart]
    exact hdir
  · rw [htarget]
    exact hcontents

/-- What a file holds after a draft was applied for it depends on nothing but what it held, if its
directory can be reached or is made. -/
theorem Draft.contents?_of_gives_apply {file? : Option Text}
    (hpath : d.path = ⟨p.messagesRoot.base ++ [name]⟩)
    (hreached : d.text = [] → p.ReachesCatalogues w)
    (h : (d.apply p false).Gives w file? w') :
    w'.tree.contents? (w.target d.path) =
      d.contentsAfter (w.tree.contents? (w.target d.path)) := by
  by_cases htext : d.text = []
  · rcases gives_apply_false_iff.1 h with ⟨hsame, -, rfl⟩ | ⟨hdiffers, -, hwrite⟩
    · rw [Differs, Workspace.wouldChange_eq, htext] at hsame
      rcases hcontents : w'.tree.contents? (w'.target d.path) with _ | s | bytes
      · simp [contentsAfter, htext]
      · by_cases hfile : d.path.CanBeFile
        · rw [hpath] at hfile hcontents hsame
          rw [(hreached htext).node?_of_contents? hfile hcontents] at hsame
          obtain rfl : s = [] := by simpa using hsame
          simp [contentsAfter, htext]
        · simp [contentsAfter, htext, hfile]
      · simp [contentsAfter, htext]
    · -- an empty text is only written in the place of another text
      obtain ⟨s, hold⟩ := exists_node?_of_differs hdiffers htext
      obtain ⟨hleaves, hnode⟩ := Workspace.leaves_of_write hwrite
      rw [Workspace.contents?_of_node? hleaves.home hnode, Workspace.contents?_of_node? rfl hold]
      simp [contentsAfter, htext, Path.canBeFile_of_write hwrite]
  · have hnode := node?_of_gives_apply htext h
    rw [Workspace.contents?_of_node? (writesOnly_of_gives_apply h).home hnode]
    rcases w.tree.contents? (w.target d.path) with _ | _ | _ <;> simp [contentsAfter, htext]

theorem Draft.reachesCatalogues_of_gives_apply {file? : Option Text}
    (hpath : d.path = ⟨p.messagesRoot.base ++ [name]⟩)
    (hreached : d.text = [] → p.ReachesCatalogues w)
    (h : (d.apply p false).Gives w file? w') : p.ReachesCatalogues w' := by
  by_cases htext : d.text = []
  · exact (hreached htext).of_leaves (writesOnly_of_gives_apply h).leaves
  · exact .of_node? (hpath ▸ node?_of_gives_apply htext h)

/-- Files of other names are left as they are. -/
theorem Draft.contents?_of_gives_apply_beside {file? : Option Text} {other : Text}
    (hpath : d.path = ⟨p.messagesRoot.base ++ [name]⟩) (hne : other ≠ name)
    (h : (d.apply p false).Gives w file? w') :
    w'.tree.contents? (w.target ⟨p.messagesRoot.base ++ [other]⟩) =
      w.tree.contents? (w.target ⟨p.messagesRoot.base ++ [other]⟩) := by
  rcases gives_apply_false_iff.1 h with ⟨-, -, rfl⟩ | ⟨-, -, hwrite⟩
  · rfl
  · obtain ⟨_, last, -, hlast, hname, -⟩ := Workspace.exists_written_of_write hwrite
    obtain rfl : name = last := by
      rw [hpath, Path.mk.injEq] at hlast
      exact List.singleton_inj.1 (List.append_inj' hlast rfl).2
    apply (Workspace.leaves_of_write hwrite).1.files
    rw [hpath, Workspace.target_base_name hname]
    exact fun heq => hne (Workspace.eq_of_target_eq_concat heq)

theorem Draft.contents?_of_gives_applyAll_beside
    (hds : ∀ d ∈ ds, ∃ other, d.path = ⟨p.messagesRoot.base ++ [other]⟩ ∧ name ≠ other)
    (h : (applyAll p false ds).Gives w files w') :
    w'.tree.contents? (w.target ⟨p.messagesRoot.base ++ [name]⟩) =
      w.tree.contents? (w.target ⟨p.messagesRoot.base ++ [name]⟩) := by
  induction ds generalizing w files with
  | nil =>
    obtain ⟨-, rfl⟩ := gives_applyAll_nil_iff.1 h
    rfl
  | cons d ds ih =>
    obtain ⟨file?, middle, files', hd, hrest, -⟩ := gives_applyAll_cons_iff.1 h
    obtain ⟨⟨other, hpath, hne⟩, hds⟩ := List.forall_mem_cons.1 hds
    have hafter := ih hds hrest
    rw [Workspace.target_eq_of_home (writesOnly_of_gives_apply hd).home] at hafter
    exact hafter.trans (contents?_of_gives_apply_beside hpath hne hd)

/-- Once drafts for the directory of the catalogues are applied, each of their texts can be read, if
it is not empty. -/
theorem Draft.node?_of_gives_applyAll (hds : ShareDirectory p.messagesRoot.base ds)
    (h : (applyAll p false ds).Gives w files w') (hd : d ∈ ds) (htext : d.text ≠ []) :
    w'.node? d.path = some (.file (.text d.text)) := by
  induction ds generalizing w files with
  | nil => cases hd
  | cons d' ds ih =>
    obtain ⟨file?, middle, files', hfirst, hrest, -⟩ := gives_applyAll_cons_iff.1 h
    by_cases hmem : ∃ d' ∈ ds, d'.path = d.path
    · -- a later draft for the same file has the same text
      obtain ⟨⟨_, text⟩, hmem, rfl⟩ := hmem
      obtain rfl : text = d.text := hds.text d hd _ (List.mem_cons_of_mem d' hmem) rfl
      exact ih hds.of_cons hrest hmem
    · obtain rfl : d = d' := (List.mem_cons.1 hd).resolve_right fun hlater =>
        hmem ⟨d, hlater, rfl⟩
      obtain ⟨name, hpath, -⟩ := hds.named d List.mem_cons_self
      have hnode := node?_of_gives_apply htext hfirst
      have hleaves := (writesOnly_of_gives_applyAll hrest).leaves
      have hothers : ∀ d' ∈ ds, ∃ other,
          d'.path = ⟨p.messagesRoot.base ++ [other]⟩ ∧ name ≠ other := by
        intro d' hd'
        obtain ⟨other, hpath', -⟩ := hds.named d' (List.mem_cons_of_mem d hd')
        refine ⟨other, hpath', ?_⟩
        rintro rfl
        exact hmem ⟨d', hd', hpath'.trans hpath.symm⟩
      have hcontents := contents?_of_gives_applyAll_beside hothers hrest
      rw [← hpath, Workspace.contents?_of_node? rfl hnode, ← Workspace.target_eq_of_home
        hleaves.home, hpath] at hcontents
      rw [hpath] at hnode ⊢
      have hreached := (Project.ReachesCatalogues.of_node? hnode).of_leaves hleaves
      exact hreached.node?_of_contents? (Path.canBeFile_of_node? hnode) hcontents

end draft

section plan

variable {locale other : Text} {l : LocalePlan} {ls : List LocalePlan}

/-- The names of a locale's files. -/
def Locale.fileNames (locale : Text) : List Text :=
  [locale, unusedName locale]

theorem Project.Distinguishes.fileNames_ne (h : p.Distinguishes locale)
    (h' : p.Distinguishes other) (hne : locale ≠ other) {name name' : Text}
    (hname : name ∈ Locale.fileNames locale) (hname' : name' ∈ Locale.fileNames other) :
    name ≠ name' := by
  simp only [Locale.fileNames, List.mem_cons, List.not_mem_nil, or_false] at hname hname'
  rcases hname with rfl | rfl <;> rcases hname' with rfl | rfl
  · exact hne
  · rintro rfl
    exact h.unused (List.suffix_append ..)
  · rintro rfl
    exact h'.unused (List.suffix_append ..)
  · rwa [Locale.unusedName, Locale.unusedName, ne_eq, List.append_cancel_right_eq]

theorem LocalePlan.exists_fileName (hl : p.Distinguishes l.locale) (hd : d ∈ l.drafts p) :
    ∃ name ∈ Locale.fileNames l.locale, d.path = ⟨p.messagesRoot.base ++ [name]⟩ := by
  simp only [drafts, List.mem_cons, List.not_mem_nil, or_false] at hd
  rcases hd with rfl | rfl
  · exact ⟨_, List.mem_cons_self, Project.localePath_eq hl⟩
  · exact ⟨_, List.mem_cons_of_mem _ List.mem_cons_self, Project.unusedPath_eq hl⟩

/-- The files of other locales are left as they are. -/
theorem Draft.contents?_of_gives_applyAll_apart (hlocale : p.Distinguishes locale)
    (hds : ∀ d ∈ ds, ∃ l : LocalePlan,
      p.Distinguishes l.locale ∧ l.locale ≠ locale ∧ d ∈ l.drafts p)
    {name : Text} (hname : name ∈ Locale.fileNames locale)
    (h : (applyAll p false ds).Gives w files w') :
    w'.tree.contents? (w.target ⟨p.messagesRoot.base ++ [name]⟩) =
      w.tree.contents? (w.target ⟨p.messagesRoot.base ++ [name]⟩) := by
  refine contents?_of_gives_applyAll_beside (fun d hd => ?_) h
  obtain ⟨l, hl, hne, hd⟩ := hds d hd
  obtain ⟨other, hother, hpath⟩ := LocalePlan.exists_fileName hl hd
  exact ⟨other, hpath, hlocale.fileNames_ne hl hne.symm hname hother⟩

/-- The plan for a locale brings its files to what its drafts say. The catalogue comes first and
makes the directory where it has to. -/
theorem LocalePlan.contents?_of_gives_drafts (hl : p.Distinguishes l.locale)
    (hreached : l.update.texts.catalogue = [] → p.ReachesCatalogues w)
    (h : (Draft.applyAll p false (l.drafts p)).Gives w files w') (hd : d ∈ l.drafts p) :
    w'.tree.contents? (w.target d.path) =
      d.contentsAfter (w.tree.contents? (w.target d.path)) := by
  obtain ⟨_, middle, _, hc, hrest, -⟩ := Draft.gives_applyAll_cons_iff.1 h
  obtain ⟨_, _, _, hu, hnil, -⟩ := Draft.gives_applyAll_cons_iff.1 hrest
  obtain ⟨-, rfl⟩ := Draft.gives_applyAll_nil_iff.1 hnil
  have hcatalogue := Project.localePath_eq hl
  have hunused := Project.unusedPath_eq hl
  have hne : Locale.unusedName l.locale ≠ l.locale := fun heq =>
    hl.unused (heq ▸ List.suffix_append ..)
  have hmiddle := Draft.reachesCatalogues_of_gives_apply hcatalogue hreached hc
  have hhome := (Draft.writesOnly_of_gives_apply hc).home
  simp only [drafts, List.mem_cons, List.not_mem_nil, or_false] at hd
  rcases hd with rfl | rfl
  · have hbeside := Draft.contents?_of_gives_apply_beside hunused hne.symm hu
    rw [Workspace.target_eq_of_home hhome, ← hcatalogue] at hbeside
    exact hbeside.trans (Draft.contents?_of_gives_apply hcatalogue hreached hc)
  · have hbeside := Draft.contents?_of_gives_apply_beside hcatalogue hne hc
    have hafter := Draft.contents?_of_gives_apply hunused (fun _ => hmiddle) hu
    rw [← hunused] at hbeside
    rwa [Workspace.target_eq_of_home hhome, hbeside] at hafter

/-- The files of a locale come to what its drafts say, whatever other locales there are, before or
after it, and however often it is there itself. -/
theorem LocalePlan.contents?_of_gives_applyAll (hnames : ∀ l' ∈ ls, p.Distinguishes l'.locale)
    (hsame : ∀ l' ∈ ls, l'.locale = l.locale → l' = l)
    (hreached : ∀ l' ∈ ls, l'.update.texts.catalogue = [] → p.ReachesCatalogues w)
    (h : (Draft.applyAll p false (ls.flatMap (drafts p))).Gives w files w') (hmem : l ∈ ls)
    (hd : d ∈ l.drafts p) :
    w'.tree.contents? (w.target d.path) =
      d.contentsAfter (w.tree.contents? (w.target d.path)) := by
  have hl := hnames l hmem
  obtain ⟨name, hname, hpath⟩ := exists_fileName hl hd
  induction ls generalizing w files with
  | nil => cases hmem
  | cons l' ls ih =>
    obtain ⟨_, middle, _, hfirst, hrest, -⟩ := Draft.gives_applyAll_append_iff.1 h
    obtain ⟨hname', hnames⟩ := List.forall_mem_cons.1 hnames
    obtain ⟨hsame', hsame⟩ := List.forall_mem_cons.1 hsame
    obtain ⟨hreached', hreached⟩ := List.forall_mem_cons.1 hreached
    have hleaves := (Draft.writesOnly_of_gives_applyAll hfirst).leaves
    have hreachedMiddle : ∀ l' ∈ ls, l'.update.texts.catalogue = [] → p.ReachesCatalogues middle :=
      fun l' hl' htext => (hreached l' hl' htext).of_leaves hleaves
    have htarget : middle.target d.path = w.target d.path :=
      Workspace.target_eq_of_home hleaves.home
    by_cases hlocale : l'.locale = l.locale
    · obtain rfl := hsame' hlocale
      have hcontents := contents?_of_gives_drafts hl hreached' hfirst hd
      by_cases hagain : l' ∈ ls
      · have hafter := ih hnames hsame hreachedMiddle hrest hagain
        rwa [htarget, hcontents, Draft.contentsAfter_contentsAfter] at hafter
      · have hapart : ∀ d ∈ ls.flatMap (drafts p),
            ∃ l : LocalePlan, p.Distinguishes l.locale ∧ l.locale ≠ l'.locale ∧ d ∈ l.drafts p := by
          intro d hd
          obtain ⟨l, hmem, hd⟩ := List.mem_flatMap.1 hd
          exact ⟨l, hnames l hmem, fun heq => hagain (hsame l hmem heq ▸ hmem), hd⟩
        have hafter := Draft.contents?_of_gives_applyAll_apart hl hapart hname hrest
        rwa [← hpath, htarget, hcontents] at hafter
    · have hmem := (List.mem_cons.1 hmem).resolve_left fun heq => hlocale (heq ▸ rfl)
      have hafter := ih hnames hsame hreachedMiddle hrest hmem
      have hbefore := Draft.contents?_of_gives_applyAll_apart hl
        (fun d hd => ⟨l', hname', hlocale, hd⟩) hname hfirst
      rw [← hpath] at hbefore
      rwa [htarget, hbefore] at hafter

end plan

section unreached

variable {sourceTag name locale : Text} {reference : ReferenceCatalogue}
  {existing unused : LocaleCatalogue} {l : LocalePlan} {locales : List Text}
  {plans : List LocalePlan}

/-- The catalogue of a locale has an entry for each message of the reference. -/
theorem Locale.catalogue_update_ne_nil (hreference : reference.Lawful) (hexisting : existing.Lawful)
    (hunused : unused.Lawful) (hne : reference.entries ≠ []) :
    (update sourceTag reference existing unused).texts.catalogue ≠ [] := by
  rw [update]
  simp only [Reconciliation.reconcile_eq_outcome hexisting hunused]
  rw [LocaleCatalogue.print, Reconciliation.entries_locale_outcome hreference]
  obtain ⟨m, ms, hentries⟩ := List.exists_cons_of_ne_nil hne
  rw [hentries]
  cases ms <;> simp [LocaleEntry.print_ne_nil]

theorem Locale.texts_update_empty (sourceTag : Text) (hnil : reference.entries = []) :
    (update sourceTag reference .empty .empty).texts = ⟨[], []⟩ := by
  simp [update, reconcile, hnil, Catalogue.empty, Reconciliation.empty, LocaleCatalogue.print]

theorem Project.node?_of_not_reachesCatalogues (h : ¬ p.ReachesCatalogues w) :
    w.node? ⟨p.messagesRoot.base ++ [name]⟩ = none := by
  rw [Option.eq_none_iff_forall_ne_some]
  exact fun node hnode => h (.of_node? hnode)

theorem LocalePlan.catalogue_ne_nil (hreference : reference.Lawful)
    (hne : reference.entries ≠ []) (h : make p w reference locale = .ok l) :
    l.update.texts.catalogue ≠ [] := by
  obtain ⟨existing, unused, hexisting, hunused, rfl⟩ := make_eq_ok_iff.1 h
  exact Locale.catalogue_update_ne_nil hreference
    (Project.isWritable_of_readCatalogue hexisting).lawful
    (Project.isWritable_of_readCatalogue hunused).lawful hne

/-- Where no catalogue can be reached, none is needed without messages. -/
theorem LocalePlan.text_eq_nil (hlocale : p.Distinguishes locale)
    (hnot : ¬ p.ReachesCatalogues w) (hnil : reference.entries = [])
    (h : make p w reference locale = .ok l) (hd : d ∈ l.drafts p) : d.text = [] := by
  obtain ⟨existing, unused, hexisting, hunused, rfl⟩ := make_eq_ok_iff.1 h
  have hnone (name : Text) :
      p.readCatalogue w ⟨p.messagesRoot.base ++ [name]⟩ = .ok .empty := by
    rw [Project.readCatalogue, Workspace.hasNode, Project.node?_of_not_reachesCatalogues hnot]
    rfl
  rw [Project.localePath_eq hlocale, hnone] at hexisting
  rw [Project.unusedPath_eq hlocale, hnone] at hunused
  obtain rfl := Except.ok.inj hexisting
  obtain rfl := Except.ok.inj hunused
  simp only [drafts, Locale.texts_update_empty p.sourceTag hnil, List.mem_cons, List.not_mem_nil,
    or_false] at hd
  rcases hd with rfl | rfl <;> rfl

/-- Plans for some locales that were made in one workspace and carried out in another one, to which
it came by writing files. -/
structure LocalePlan.CarriedOut (p : Project) (reference : ReferenceCatalogue)
    (locales : List Text) (plans : List LocalePlan) (before w w' : Workspace) : Prop where
  names : ∀ locale ∈ locales, p.Distinguishes locale
  made : makeAll p before reference locales = .ok plans
  leaves : ∃ written, Workspace.Leaves written before w
  carried : ∃ files, (Draft.applyAll p false (plans.flatMap (drafts p))).Gives w files w'

variable {before : Workspace} (h : LocalePlan.CarriedOut p reference locales plans before w w')
include h

/-- Plans with messages, or for catalogues that can be reached, bring the files of each locale to
what its drafts say. -/
theorem LocalePlan.CarriedOut.contents?_eq (hreference : reference.Lawful)
    (hreached : reference.entries = [] → p.ReachesCatalogues w) (hl : l ∈ plans)
    (hd : d ∈ l.drafts p) :
    w'.tree.contents? (w.target d.path) =
      d.contentsAfter (w.tree.contents? (w.target d.path)) := by
  have hmade := of_mem_makeAll h.made
  obtain ⟨files, hfiles⟩ := h.carried
  refine contents?_of_gives_applyAll (fun l' hl' => h.names _ (hmade l' hl').1)
    (eq_of_makeAll h.made l hl) ?_ hfiles hl hd
  intro l' hl' htext
  by_contra hnot
  exact catalogue_ne_nil hreference (fun hnil => hnot (hreached hnil)) (hmade l' hl').2 htext

/-- Plans without messages do nothing where no catalogue can be reached. -/
theorem LocalePlan.CarriedOut.eq_of_not_reachesCatalogues (hnil : reference.entries = [])
    (hnot : ¬ p.ReachesCatalogues w) : w' = w := by
  have hmade := of_mem_makeAll h.made
  obtain ⟨written, hleaves⟩ := h.leaves
  obtain ⟨files, hfiles⟩ := h.carried
  have hsame : ∀ d ∈ plans.flatMap (drafts p), ¬ d.Differs w := by
    intro d hd
    obtain ⟨l, hl, hd⟩ := List.mem_flatMap.1 hd
    have hlocale := h.names _ (hmade l hl).1
    have htext := text_eq_nil hlocale (fun hold => hnot (hold.of_leaves hleaves)) hnil
      (hmade l hl).2 hd
    obtain ⟨name, -, hpath⟩ := exists_fileName hlocale hd
    rw [Draft.Differs, Workspace.wouldChange_eq, hpath,
      Project.node?_of_not_reachesCatalogues hnot, htext]
    exact Bool.false_ne_true
  exact hfiles.2.symm.trans (Draft.applyAll_of_not_differs p hsame).2

end unreached

end CatalogueSync
