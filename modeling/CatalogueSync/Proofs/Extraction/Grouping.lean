import CatalogueSync.Proofs.Catalogue.Grouping
import CatalogueSync.Proofs.Extraction.Grammar

/-!
# Occurrences of messages

The messages of all templates, in order, are the occurrences that an extraction groups
(`Extraction.Groups`): by key, each group in the order of the occurrences and under what the first
one says. The catalogue of the extraction changes with each occurrence, but a stored message keeps
the plural, the comment and the first place of the first occurrence of its key
(`Extraction.mergeAll_appendSources`), and so a later occurrence is always compared with that one
(`Extraction.collisions_ofMessages`).
-/

set_option autoImplicit false

namespace CatalogueSync

namespace Template

variable {path : Text} {ts : List Token} {us : List Message}

theorem SpellsUnits.exists_source (h : SpellsUnits path us ts) :
    ∀ m ∈ us, ∃ source, m.sources = [source] := by
  induction h with
  | nil => simp
  | other _ _ _ ih => exact ih
  | inline _ _ _ ih => exact List.forall_mem_cons.2 ⟨⟨_, rfl⟩, ih⟩
  | block _ _ _ _ ih => exact List.forall_mem_cons.2 ⟨⟨_, rfl⟩, ih⟩

/-- A message of a template has one place. -/
theorem exists_source {t : Template} {ms : List Message} (h : t.messages = .ok ms) :
    ∀ m ∈ ms, ∃ source, m.sources = [source] := by
  obtain ⟨us, hus, rfl⟩ := readMessages_eq_ok_iff.1 h
  exact fun m hm => hus.exists_source m (List.mem_of_mem_filter hm)

theorem exists_source_of_forall₂ {ts : List Template} {mss : List (List Message)}
    (h : List.Forall₂ (fun t ms => t.messages = .ok ms) ts mss) :
    ∀ m ∈ mss.flatten, ∃ source, m.sources = [source] := by
  induction h with
  | nil => simp
  | cons ht _ ih =>
    intro m hm
    rw [List.flatten_cons, List.mem_append] at hm
    exact hm.elim (exists_source ht m) (ih m)

/-- The messages of several templates are those of each of them, in order. -/
theorem allMessages_eq_ok_iff {ts : List Template} {ms : List Message} :
    allMessages ts = .ok ms ↔
      ∃ mss, List.Forall₂ (fun t ms => t.messages = .ok ms) ts mss ∧ ms = mss.flatten := by
  induction ts generalizing ms with
  | nil => simp [allMessages, eq_comm]
  | cons t ts ih =>
    rw [allMessages]
    constructor
    · intro h
      split at h
      · cases h
      · rename_i first hfirst
        obtain ⟨more, hmore, rfl⟩ := of_map_eq_ok h
        obtain ⟨mss, hmss, rfl⟩ := ih.1 hmore
        exact ⟨first :: mss, .cons hfirst hmss, rfl⟩
    · rintro ⟨mss, hmss, rfl⟩
      obtain ⟨first, more, hfirst, hmore, rfl⟩ := List.forall₂_cons_left_iff.1 hmss
      rw [hfirst, ih.2 ⟨more, hmore, rfl⟩]
      rfl

/-- The first template that cannot be read decides. -/
theorem allMessages_eq_error_iff {ts : List Template} {e : FileError} :
    allMessages ts = .error e ↔
      ∃ before t after cause, ts = before ++ t :: after ∧
        (∀ u ∈ before, ∃ ms, u.messages = .ok ms) ∧ t.messages = .error cause ∧
        e = ⟨t.path, cause⟩ := by
  constructor
  · intro h
    induction ts with
    | nil => cases h
    | cons t ts ih =>
      rw [allMessages] at h
      split at h
      · rename_i cause hcause
        exact ⟨[], t, ts, cause, rfl, by simp, hcause, (Except.error.inj h).symm⟩
      · rename_i first hfirst
        obtain ⟨before, u, after, cause, rfl, hbefore, hcause, he⟩ := ih (map_eq_error_iff.1 h)
        exact ⟨t :: before, u, after, cause, rfl,
          List.forall_mem_cons.2 ⟨⟨first, hfirst⟩, hbefore⟩, hcause, he⟩
  · rintro ⟨before, t, after, cause, rfl, hbefore, hcause, rfl⟩
    induction before with
    | nil => rw [List.nil_append, allMessages, hcause]
    | cons u before ih =>
      obtain ⟨⟨first, hfirst⟩, hbefore⟩ := List.forall_mem_cons.1 hbefore
      rw [List.cons_append, allMessages, hfirst, ih hbefore]
      rfl

end Template

namespace Extraction

/-- The collision of an occurrence with the first occurrence of its key. -/
def collisionIn? (ms : List Message) (m : Message) : Option Collision :=
  (ms.find? fun first => first.key = m.key).bind fun first =>
    if first.plural = m.plural ∧ first.comment = m.comment then none
    else some ⟨m.key, first.sources.headD [], m.sources.headD []⟩

/-- An extraction groups some occurrences of messages, each with one place: there is one message
for each key, in the order in which the keys first occur, with what the first occurrence says and
with the places of all; no place is lost and none comes twice, so that there are as many as
occurrences; and each occurrence that says something else than the first one of its key is a
collision with that one. -/
structure Groups (ms : List Message) (x : Extraction) : Prop where
  place : ∀ m ∈ ms, ∃ source, m.sources = [source]
  lawful : x.catalogue.Lawful
  keys : x.catalogue.keys = (ms.map fun m => m.key).eraseDups
  message : ∀ key m later, (ms.filter fun u => u.key = key) = m :: later →
    x.catalogue.get? key = some { m with sources := (m :: later).flatMap fun u => u.sources }
  sources : (x.catalogue.entries.flatMap fun m => m.sources).Perm (ms.flatMap fun m => m.sources)
  count : (x.catalogue.entries.flatMap fun m => m.sources).length = ms.length
  collisions : x.collisions = ms.filterMap (collisionIn? ms)

theorem mergeAll_appendSources (m : Message) (ms : List Message) :
    Catalogue.mergeAll Message.appendSources (m :: ms) =
      some { m with sources := (m :: ms).flatMap fun u => u.sources } := by
  rw [Catalogue.mergeAll]
  induction ms generalizing m with
  | nil => simp
  | cons n ms ih =>
    rw [List.foldl_cons, ih]
    simp [Message.appendSources]

section ofMessages

variable {ms : List Message}

theorem lawful_ofMessages (ms : List Message) : (ofMessages ms).catalogue.Lawful := by
  rw [catalogue_ofMessages]
  exact Catalogue.lawful_collect Message.key_appendSources ms

theorem keys_ofMessages (ms : List Message) :
    (ofMessages ms).catalogue.keys = (ms.map fun m => m.key).eraseDups := by
  rw [catalogue_ofMessages]
  exact Catalogue.keys_collect Message.key_appendSources ms

theorem get?_ofMessages (ms : List Message) (key : Text) :
    (ofMessages ms).catalogue.get? key =
      Catalogue.mergeAll Message.appendSources (ms.filter fun m => m.key = key) := by
  rw [catalogue_ofMessages]
  exact Catalogue.get?_collect Message.key_appendSources ms key

/-- Sorted by key, the places are still those of the occurrences. -/
theorem sources_ofMessages (ms : List Message) :
    ((ofMessages ms).catalogue.entries.flatMap fun m => m.sources).Perm
      (ms.flatMap fun m => m.sources) := by
  have hlawful := lawful_ofMessages ms
  have hgroup : ∀ key, ((ofMessages ms).catalogue.get? key).toList.flatMap (fun m => m.sources) =
      (ms.filter fun m => m.key = key).flatMap fun m => m.sources := by
    intro key
    rw [get?_ofMessages]
    cases ms.filter fun m => m.key = key with
    | nil => rfl
    | cons m later =>
      rw [mergeAll_appendSources]
      simp
  have hkeys : ∀ m ∈ ms, m.key ∈ (ofMessages ms).catalogue.keys := by
    intro m hm
    rw [keys_ofMessages, List.mem_eraseDups]
    exact List.mem_map_of_mem hm
  rw [hlawful.entries_eq_filterMap, List.filterMap_eq_flatMap_toList, List.flatMap_assoc]
  simp only [hgroup]
  rw [← List.flatMap_assoc]
  exact (flatMap_filter_perm Message.key hlawful.nodup hkeys).flatMap_right _

theorem collisions_record (x : Extraction) (m : Message) :
    (x.record m).collisions =
      x.collisions ++ ((x.catalogue.get? m.key).bind fun stored => collision? stored m).toList :=
  rfl

/-- An occurrence is compared with the stored message, and so with the first occurrence. -/
theorem bind_collision?_ofMessages (hsources : ∀ m ∈ ms, m.sources ≠ []) (m : Message) :
    ((ofMessages ms).catalogue.get? m.key).bind (fun stored => collision? stored m) =
      collisionIn? (ms ++ [m]) m := by
  rw [get?_ofMessages, collisionIn?, List.find?_append, ← List.head?_filter]
  cases hfilter : ms.filter fun u => u.key = m.key with
  | nil => simp [Catalogue.mergeAll]
  | cons first later =>
    obtain ⟨hfirst, hkey⟩ := List.mem_filter.1 (hfilter ▸ List.mem_cons_self)
    have hkey : first.key = m.key := by simpa using hkey
    obtain ⟨source, more, hcons⟩ := List.exists_cons_of_ne_nil (hsources first hfirst)
    rw [mergeAll_appendSources]
    simp [collision?, hkey, hcons]

/-- Later occurrences do not change with what an occurrence collides. -/
theorem collisionIn?_append {m : Message} (hm : m ∈ ms) (more : List Message) :
    collisionIn? (ms ++ more) m = collisionIn? ms m := by
  have hfind : (ms.find? fun u => u.key = m.key).isSome :=
    List.find?_isSome.2 ⟨m, hm, by simp⟩
  obtain ⟨first, hfirst⟩ := Option.isSome_iff_exists.1 hfind
  rw [collisionIn?, collisionIn?, List.find?_append, hfirst]
  rfl

theorem collisions_ofMessages (hsources : ∀ m ∈ ms, m.sources ≠ []) :
    (ofMessages ms).collisions = ms.filterMap (collisionIn? ms) := by
  induction ms using List.reverseRecOn with
  | nil => rfl
  | append_singleton ms m ih =>
    have hms : ∀ u ∈ ms, u.sources ≠ [] := fun u hu => hsources u (List.mem_append_left _ hu)
    have hrecord : ofMessages (ms ++ [m]) = (ofMessages ms).record m := by
      simp [ofMessages]
    have hearlier : ms.filterMap (collisionIn? (ms ++ [m])) = ms.filterMap (collisionIn? ms) :=
      List.filterMap_congr fun u hu => collisionIn?_append hu [m]
    rw [hrecord, collisions_record, ih hms, bind_collision?_ofMessages hms, List.filterMap_append,
      hearlier]
    cases hm : collisionIn? (ms ++ [m]) m <;> simp [hm]

theorem groups_ofMessages (hsources : ∀ m ∈ ms, ∃ source, m.sources = [source]) :
    (ofMessages ms).Groups ms := by
  have hne : ∀ m ∈ ms, m.sources ≠ [] := by
    intro m hm
    obtain ⟨source, hsource⟩ := hsources m hm
    simp [hsource]
  refine ⟨hsources, lawful_ofMessages ms, keys_ofMessages ms, ?_, sources_ofMessages ms, ?_,
    collisions_ofMessages hne⟩
  · intro key m later hfilter
    rw [get?_ofMessages, hfilter, mergeAll_appendSources]
  · have hone : (ms.map fun m => m.sources.length) = ms.map fun _ => 1 := by
      apply List.map_congr_left
      intro m hm
      obtain ⟨source, hsource⟩ := hsources m hm
      rw [hsource, List.length_singleton]
    rw [(sources_ofMessages ms).length_eq, List.length_flatMap, hone]
    simp

end ofMessages

/-- Nothing of an extraction is left open by the occurrences that it groups. -/
theorem Groups.eq {ms : List Message} {x y : Extraction} (hx : x.Groups ms) (hy : y.Groups ms) :
    x = y := by
  have hcatalogue : x.catalogue = y.catalogue := by
    apply hx.lawful.ext_of_filter hy.lawful hx.keys hy.keys
    intro key m later hfilter
    rw [hx.message key m later hfilter, hy.message key m later hfilter]
  have hcollisions : x.collisions = y.collisions := hx.collisions.trans hy.collisions.symm
  cases x
  cases y
  cases hcatalogue
  cases hcollisions
  rfl

/-- The extraction of templates groups their messages, and it fails only for a template that cannot
be read, the first one of them. -/
theorem ofTemplates_eq_iff_groups (ts : List Template) :
    (∀ x, ofTemplates ts = .ok x ↔
      ∃ mss, List.Forall₂ (fun t ms => t.messages = .ok ms) ts mss ∧ x.Groups mss.flatten) ∧
    ∀ e, ofTemplates ts = .error e ↔
      ∃ before t after cause, ts = before ++ t :: after ∧
        (∀ u ∈ before, ∃ ms, u.messages = .ok ms) ∧ t.messages = .error cause ∧
        e = ⟨t.path, cause⟩ := by
  have hgroups : ∀ mss, List.Forall₂ (fun t ms => t.messages = .ok ms) ts mss →
      (ofMessages mss.flatten).Groups mss.flatten := fun mss hmss =>
    groups_ofMessages (Template.exists_source_of_forall₂ hmss)
  constructor
  · intro x
    constructor
    · intro h
      obtain ⟨ms, hms, rfl⟩ := of_map_eq_ok h
      obtain ⟨mss, hmss, rfl⟩ := Template.allMessages_eq_ok_iff.1 hms
      exact ⟨mss, hmss, hgroups mss hmss⟩
    · rintro ⟨mss, hmss, hx⟩
      rw [ofTemplates, Template.allMessages_eq_ok_iff.2 ⟨mss, hmss, rfl⟩]
      exact congrArg Except.ok ((hgroups mss hmss).eq hx)
  · intro e
    rw [ofTemplates, map_eq_error_iff]
    exact Template.allMessages_eq_error_iff

end Extraction

end CatalogueSync
