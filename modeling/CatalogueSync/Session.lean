import CatalogueSync.Failure
import CatalogueSync.Report.Notice

/-!
# Sessions

A session is a run in the making. It gives a value or fails, it collects notices on the way, and
it may change the workspace. A session that only looks at the workspace is a function from the
workspace to what it reports, so that it shows in its type that it writes nothing.
-/

set_option autoImplicit false

namespace CatalogueSync

/-- A value or a failure, with the notices up to it. -/
structure Reported (α : Type) where
  notices : List Notice
  result : Except Failure α

namespace Reported

variable {α β : Type}

/-- A value without any notice. -/
def ok (a : α) : Reported α :=
  ⟨[], .ok a⟩

/-- A failure without any notice. -/
def fail (f : Failure) : Reported α :=
  ⟨[], .error f⟩

/-- Notices alone. -/
def tell (ns : List Notice) : Reported Unit :=
  ⟨ns, .ok ()⟩

/-- A value or a failure without any notice. -/
def ofExcept (r : Except Failure α) : Reported α :=
  ⟨[], r⟩

/-- Goes on with a value. A failure ends it, but the notices before it stay. -/
def andThen (r : Reported α) (f : α → Reported β) : Reported β :=
  match r.result with
  | .error e => ⟨r.notices, .error e⟩
  | .ok a => ⟨r.notices ++ (f a).notices, (f a).result⟩

instance : Monad Reported where
  pure := ok
  bind := andThen

/-- A report gives a value exactly when each of its parts does. -/
theorem result_bind_eq_ok {r : Reported α} {f : α → Reported β} {b : β} :
    (r >>= f).result = .ok b ↔ ∃ a, r.result = .ok a ∧ (f a).result = .ok b := by
  obtain ⟨notices, result⟩ := r
  cases result <;> simp [bind, andThen]

end Reported

/-- What a run does to a workspace and what it reports. -/
def Session (α : Type) :=
  Workspace → Workspace × Reported α

namespace Session

variable {α β : Type}

/-- A value that leaves the workspace as it is. -/
def ok (a : α) : Session α :=
  fun w => (w, .ok a)

/-- Looks at the workspace. -/
def look (f : Workspace → Reported α) : Session α :=
  fun w => (w, f w)

/-- Goes on with a value in the workspace that was left. -/
def andThen (s : Session α) (f : α → Session β) : Session β :=
  fun w =>
    match s w with
    | (w', ⟨notices, .error e⟩) => (w', ⟨notices, .error e⟩)
    | (w', ⟨notices, .ok a⟩) =>
      match f a w' with
      | (w'', ⟨more, result⟩) => (w'', ⟨notices ++ more, result⟩)

instance : Monad Session where
  pure := ok
  bind := andThen

/-- A session gives a value exactly when each of its parts does. -/
theorem result_bind_eq_ok {s : Session α} {f : α → Session β} {w : Workspace} {b : β} :
    ((s >>= f) w).2.result = .ok b ↔
      ∃ a, (s w).2.result = .ok a ∧ (f a (s w).1).2.result = .ok b := by
  simp only [bind, andThen]
  rcases s w with ⟨w', notices, result⟩
  cases result <;> simp

/-- The second part of a session finds the workspace that the first has left. -/
theorem workspace_bind_of_ok {s : Session α} {f : α → Session β} {w : Workspace} {a : α}
    (h : (s w).2.result = .ok a) : ((s >>= f) w).1 = (f a (s w).1).1 := by
  simp only [bind, andThen]
  rcases hs : s w with ⟨w', notices, result⟩
  rw [hs] at h
  simp only at h
  subst h
  rfl

/-- Looking leaves the workspace as it is. -/
@[simp]
theorem workspace_look (f : Workspace → Reported α) (w : Workspace) : (look f w).1 = w := rfl

end Session

end CatalogueSync
