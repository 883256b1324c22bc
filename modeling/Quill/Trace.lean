import Quill.Path

/-!
Computations that leave a trace: a list of events beside a result or an error.  The events
of a failed computation are kept.  `bind_of_ok` and `bind_of_error` say how computations
follow one another, and they obey the laws of a monad.
-/

namespace Quill

inductive Event where
  /-- A path led nowhere. -/
  | lookupFailed (path : Path)
  /-- A stage named a filter that is not registered. -/
  | filterSkipped (name : String)
  /-- A filter raised a fault. -/
  | filterFailed (name : String)
  deriving DecidableEq, Repr

def Event.message (templateName : String) : Event → String
  | .lookupFailed path =>
    "Failed lookup for " ++ Text.quoted path.text ++ " in template " ++
      Text.quoted templateName ++ "."
  | .filterSkipped name =>
    "Skipping unregistered filter '" ++ name ++ "' in template '" ++ templateName ++ "'."
  | .filterFailed name =>
    "Exception while applying filter '" ++ name ++ "' in template '" ++ templateName ++ "'."

@[ext] structure Trace (ε α : Type) where
  events : List Event
  result : Except ε α

namespace Trace

variable {ε α β : Type}

def ofExcept (r : Except ε α) : Trace ε α := ⟨[], r⟩

def note (e : Event) : Trace ε Unit := ⟨[e], .ok ()⟩

def fail (e : ε) : Trace ε α := ⟨[], .error e⟩

def andThen (t : Trace ε α) (f : α → Trace ε β) : Trace ε β :=
  match t.result with
  | .error e => ⟨t.events, .error e⟩
  | .ok a => ⟨t.events ++ (f a).events, (f a).result⟩

instance : Monad (Trace ε) where
  pure a := ⟨[], .ok a⟩
  bind := andThen
  map f t := ⟨t.events, t.result.map f⟩

@[simp] theorem events_pure (a : α) : (pure a : Trace ε α).events = [] := rfl

@[simp] theorem result_pure (a : α) : (pure a : Trace ε α).result = .ok a := rfl

@[simp] theorem events_map (f : α → β) (t : Trace ε α) : (f <$> t).events = t.events := rfl

@[simp] theorem result_map (f : α → β) (t : Trace ε α) : (f <$> t).result = t.result.map f := rfl

/-- After a result the next computation adds its events. -/
theorem bind_of_ok {t : Trace ε α} {a : α} (h : t.result = .ok a) (f : α → Trace ε β) :
    t >>= f = ⟨t.events ++ (f a).events, (f a).result⟩ := by
  change andThen t f = _
  rw [andThen, h]

/-- After an error nothing follows. -/
theorem bind_of_error {t : Trace ε α} {e : ε} (h : t.result = .error e) (f : α → Trace ε β) :
    t >>= f = ⟨t.events, .error e⟩ := by
  change andThen t f = _
  rw [andThen, h]

instance : LawfulMonad (Trace ε) where
  map_const := rfl
  id_map t := by rcases t with ⟨events, _ | _⟩ <;> rfl
  seqLeft_eq t u := by
    rcases t with ⟨events, _ | _⟩
    · rfl
    · rcases u with ⟨others, _ | _⟩ <;>
        simp [SeqLeft.seqLeft, Seq.seq, andThen, Functor.map, Except.map]
  seqRight_eq t u := by
    rcases t with ⟨events, _ | _⟩
    · rfl
    · rcases u with ⟨others, _ | _⟩ <;> rfl
  pure_seq f t := rfl
  bind_pure_comp f t := by
    rcases t with ⟨events, _ | _⟩ <;> simp [bind, andThen, Functor.map, Except.map]
  bind_map t u := rfl
  pure_bind a f := rfl
  bind_assoc t f g := by
    rcases t with ⟨events, _ | a⟩
    · rfl
    · simp only [bind, andThen]
      cases (f a).result <;> simp

end Trace
end Quill
