import IdiomLint.Notice

/-!
# Outcomes

An outcome is the result of a computation together with what it did on the way: the notices it gave,
the text it printed and the files it wrote. What was done stays done when the computation fails.
-/

namespace IdiomLint

/-- Something done on the way. -/
inductive Effect where
  | notice (n : Notice)
  | print (text : String)
  | write (path : String) (content : List UInt8)

/-- A result, or a failure, and what was done before. -/
structure Outcome (ε α : Type) where
  effects : List Effect
  result : Except ε α

namespace Outcome

variable {ε α β : Type}

/-- A result that took no effect. -/
def succeed (a : α) : Outcome ε α := ⟨[], .ok a⟩

/-- A failure that took no effect. -/
def fail (e : ε) : Outcome ε α := ⟨[], .error e⟩

/-- A result or a failure, as it is. -/
def ofExcept (r : Except ε α) : Outcome ε α := ⟨[], r⟩

/-- A single effect. -/
def emit (e : Effect) : Outcome ε Unit := ⟨[e], .ok ()⟩

/-- A single notice. -/
def notify (n : Notice) : Outcome ε Unit := emit (.notice n)

/-- Several notices in order. -/
def notifyAll (ns : List Notice) : Outcome ε Unit := ⟨ns.map .notice, .ok ()⟩

/-- One computation after another; the second one is given the result of the first. -/
def andThen (x : Outcome ε α) (f : α → Outcome ε β) : Outcome ε β :=
  match x.result with
  | .error e => ⟨x.effects, .error e⟩
  | .ok a =>
    let y := f a
    ⟨x.effects ++ y.effects, y.result⟩

instance : Monad (Outcome ε) where
  pure := succeed
  bind := andThen

/-- The failure seen as another failure. -/
def mapError {ε' : Type} (f : ε → ε') (x : Outcome ε α) : Outcome ε' α :=
  ⟨x.effects, x.result.mapError f⟩

/-- The notices among the effects. -/
def notices (x : Outcome ε α) : List Notice :=
  x.effects.filterMap fun
    | .notice n => some n
    | _ => none

/-- The text printed. -/
def printed (x : Outcome ε α) : String :=
  String.join (x.effects.filterMap fun
    | .print text => some text
    | _ => none)

/-- The files written, in order. -/
def writes (x : Outcome ε α) : List (String × List UInt8) :=
  x.effects.filterMap fun
    | .write path content => some (path, content)
    | _ => none

@[simp] theorem result_pure (a : α) : (pure a : Outcome ε α).result = .ok a := rfl

/-- Results follow one another as if there were no effects. -/
theorem result_bind (x : Outcome ε α) (f : α → Outcome ε β) :
    (x >>= f).result = x.result >>= fun a => (f a).result := by
  show (x.andThen f).result = _
  unfold andThen
  cases x.result <;> rfl

end Outcome

end IdiomLint
