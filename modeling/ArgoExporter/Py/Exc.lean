/-
  ArgoExporter.Py.Exc

  Python exceptions as values.  `ExcClass` lists the classes the exporter
  raises or catches, and the `is…` predicates say which `except` clause takes
  which class, following the class hierarchy.
-/

namespace ArgoExporter.Py

/-- Exception classes that some clause of the exporter tells apart. -/
inductive ExcClass where
  | valueError
  | unicodeDecodeError
  | jsonDecodeError
  | binasciiError
  | typeError
  | keyError
  | overflowError
  | recursionError
  | eofError
  | osError
  | badGzipFile
  | zlibError
  | requestException
  | clientError (code : String)
  | configError
  | kubernetesResponseError
  | malformedWorkflowError
  | metaSchemaError
  | other (name : String)
  deriving DecidableEq, Repr

namespace ExcClass

/-- Subclasses of `ValueError`. -/
def isValueError : ExcClass → Bool
  | valueError | unicodeDecodeError | jsonDecodeError | binasciiError
  | kubernetesResponseError | malformedWorkflowError => true
  | _ => false

/-- Subclasses of `OSError`; `requests.RequestException` is one. -/
def isOSError : ExcClass → Bool
  | osError | badGzipFile | requestException => true
  | _ => false

/-- Subclasses of `UnicodeError`. -/
def isUnicodeError : ExcClass → Bool
  | unicodeDecodeError => true
  | _ => false

end ExcClass

/-- A raised exception: its class and its text. -/
structure Exc where
  cls : ExcClass
  msg : String
  deriving DecidableEq, Repr

/-- Raise an exception of class `cls`. -/
def raise {α : Type} (cls : ExcClass) (msg : String) : Except Exc α := .error ⟨cls, msg⟩

/-! ## Sequencing -/

section Sequencing

variable {ε α β : Type}

@[simp] theorem ok_bind (a : α) (f : α → Except ε β) : (Except.ok a >>= f) = f a := rfl

@[simp] theorem error_bind (e : ε) (f : α → Except ε β) :
    ((Except.error e : Except ε α) >>= f) = .error e := rfl

@[simp] theorem pure_eq_ok (a : α) : (pure a : Except ε α) = .ok a := rfl

/-- A sequence succeeds when its first part does and the rest does on its value. -/
theorem bind_eq_ok {x : Except ε α} {f : α → Except ε β} {b : β} :
    (x >>= f) = .ok b ↔ ∃ a, x = .ok a ∧ f a = .ok b := by
  cases x with
  | error e => simp
  | ok a => simp

/-- A sequence fails in its first part, or in the rest. -/
theorem bind_eq_error {x : Except ε α} {f : α → Except ε β} {e : ε} :
    (x >>= f) = .error e ↔ x = .error e ∨ ∃ a, x = .ok a ∧ f a = .error e := by
  cases x with
  | error e' => simp
  | ok a => simp

theorem map_eq_ok {x : Except ε α} {f : α → β} {b : β} :
    x.map f = .ok b ↔ ∃ a, x = .ok a ∧ f a = b := by
  cases x with
  | error e => simp [Except.map]
  | ok a => simp [Except.map]

theorem exists_map_eq_ok {x : Except ε α} {f : α → β} :
    (∃ b, x.map f = .ok b) ↔ ∃ a, x = .ok a := by
  simp only [map_eq_ok]
  exact ⟨fun ⟨_, a, h, _⟩ => ⟨a, h⟩, fun ⟨a, h⟩ => ⟨f a, a, h, rfl⟩⟩

/-- A loop of checks succeeds when every check does. -/
theorem forM_eq_ok_iff {f : α → Except ε Unit} {l : List α} :
    l.forM f = .ok () ↔ ∀ a ∈ l, f a = .ok () := by
  induction l with
  | nil => simp
  | cons a l ih =>
      have hcons : (a :: l).forM f = f a >>= fun _ => l.forM f := rfl
      rw [hcons, bind_eq_ok, List.forall_mem_cons, ← ih]
      constructor
      · rintro ⟨⟨⟩, ha, hl⟩
        exact ⟨ha, hl⟩
      · rintro ⟨ha, hl⟩
        exact ⟨(), ha, hl⟩

/-- Two checks in sequence. -/
theorem seq_eq_ok_iff {x y : Except ε Unit} :
    (x >>= fun _ => y) = .ok () ↔ x = .ok () ∧ y = .ok () := by
  rw [bind_eq_ok]
  constructor
  · rintro ⟨⟨⟩, hx, hy⟩
    exact ⟨hx, hy⟩
  · rintro ⟨hx, hy⟩
    exact ⟨(), hx, hy⟩

end Sequencing

@[simp] theorem raise_eq_error {α : Type} (cls : ExcClass) (msg : String) :
    (raise cls msg : Except Exc α) = .error ⟨cls, msg⟩ := rfl

end ArgoExporter.Py
