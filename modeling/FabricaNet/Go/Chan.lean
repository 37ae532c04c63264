/-!
# Channels

A channel with its capacity and the values it holds. A send on a full channel and a receive on an
empty one block. A send on a closed channel panics, also one that was blocked when the channel was
closed. A channel of capacity 0 holds nothing: a value goes from a sender straight to a receiver,
which is a step of the two together.
-/

namespace Go

/-- `chan α`. -/
structure Chan (α : Type) where
  cap : Nat
  buf : List α
  closed : Bool

namespace Chan

variable {α : Type}

/-- `make(chan α, cap)`. -/
def make (cap : Nat) : Chan α := { cap := cap, buf := [], closed := false }

/-- What a send comes to. -/
inductive Send (α : Type) where
  | blocked
  | panic
  | done (c : Chan α)

/-- `c <- x`. -/
def send (c : Chan α) (x : α) : Send α :=
  if c.closed then .panic
  else if c.buf.length < c.cap then .done { c with buf := c.buf ++ [x] }
  else .blocked

/-- What a receive comes to. -/
inductive Recv (α : Type) where
  | blocked
  /-- closed, and nothing left -/
  | ended
  | got (x : α) (c : Chan α)

/-- `x, ok := <-c`. -/
def recv (c : Chan α) : Recv α :=
  match c.buf with
  | x :: rest => .got x { c with buf := rest }
  | [] => if c.closed then .ended else .blocked

/-- `close(c)` of an open channel. -/
def close (c : Chan α) : Chan α := { c with closed := true }

/-- A value can go straight from a sender to a receiver. -/
def handsOff (c : Chan α) : Bool := c.cap = 0 && !c.closed

theorem send_eq_done {c c' : Chan α} {x : α} (h : c.send x = .done c') :
    c.closed = false ∧ c' = { c with buf := c.buf ++ [x] } := by
  unfold send at h
  split at h
  · cases h
  · next hclosed =>
    split at h
    · cases h; exact ⟨Bool.eq_false_iff.mpr hclosed, rfl⟩
    · cases h

theorem length_of_send {c c' : Chan α} {x : α} (h : c.send x = .done c') :
    c'.buf.length ≤ c'.cap := by
  unfold send at h
  split at h
  · cases h
  · split at h
    · next hroom =>
      cases h
      show (c.buf ++ [x]).length ≤ c.cap
      rwa [List.length_append]
    · cases h

theorem send_eq_panic {c : Chan α} {x : α} (h : c.send x = .panic) : c.closed = true := by
  unfold send at h
  split at h
  · next hclosed => exact hclosed
  · split at h <;> cases h

theorem send_eq_blocked {c : Chan α} {x : α} (h : c.send x = .blocked) :
    c.closed = false ∧ c.cap ≤ c.buf.length := by
  unfold send at h
  split at h
  · cases h
  · next hclosed =>
    split at h
    · cases h
    · next hfull => exact ⟨Bool.eq_false_iff.mpr hclosed, Nat.le_of_not_lt hfull⟩

theorem recv_eq_ended {c : Chan α} (h : c.recv = .ended) : c.closed = true ∧ c.buf = [] := by
  unfold recv at h
  split at h
  · cases h
  · next hbuf =>
    split at h
    · next hclosed => exact ⟨hclosed, hbuf⟩
    · cases h

theorem recv_eq_got {c c' : Chan α} {x : α} (h : c.recv = .got x c') :
    c.buf = x :: c'.buf ∧ c'.cap = c.cap ∧ c'.closed = c.closed := by
  unfold recv at h
  split at h
  · next hbuf => cases h; exact ⟨hbuf, rfl, rfl⟩
  · split at h <;> cases h

end Chan

end Go
