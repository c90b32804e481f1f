import MaskPool.Foundations.Rings

/-!
# Objects on rings

A memory holds objects at addresses, each with a hook in it. Several rings share one
memory. Every access is checked, so a program that follows a freed hook or frees twice
faults; a loop also faults when it runs out of the rounds it was given.
-/

namespace MaskPool.RingStore

open Rings

/-- What stops a program: a hook or an object that is not allocated, or a loop that is
still going when its rounds are used up. -/
inductive Fault where
  | invalid
  | outOfFuel
  deriving DecidableEq, Repr

/-- What the body of a loop does about the object at hand. -/
inductive Decision (ρ : Type) where
  | keep
  | remove
  | stop (returned : ρ)

structure Memory {Ptr : Type} (ops : Ops.{0, 0} Ptr) (Obj : Type) where
  hooks : ops.Hooks
  objects : Ptr → Option Obj

variable {Ptr : Type} {ops : Ops.{0, 0} Ptr} {Obj α τ ρ : Type}

namespace Memory

def next (mem : Memory ops Obj) (pos : Ptr) : Except Fault Ptr :=
  if (mem.objects pos).isSome then .ok (ops.next mem.hooks pos) else .error .invalid

def load (read : Obj → Option α) (mem : Memory ops Obj) (pos : Ptr) : Except Fault α :=
  match (mem.objects pos).bind read with
  | some a => .ok a
  | none => .error .invalid

variable [DecidableEq Ptr]

def initHead (head : Ptr) (mem : Memory ops Obj) : Except Fault (Memory ops Obj) :=
  if (mem.objects head).isSome then
    .ok { mem with hooks := ops.initListHead head mem.hooks }
  else .error .invalid

def insert (head new : Ptr) (obj : Obj) (mem : Memory ops Obj) :
    Except Fault (Memory ops Obj) :=
  if (mem.objects head).isSome then
    .ok { hooks := ops.listAddTail new head mem.hooks
          objects := Function.update mem.objects new (some obj) }
  else .error .invalid

def remove (pos : Ptr) (mem : Memory ops Obj) : Except Fault (Memory ops Obj) :=
  if (mem.objects pos).isSome then
    .ok { hooks := ops.listDel pos mem.hooks
          objects := Function.update mem.objects pos none }
  else .error .invalid

def isEmpty (head : Ptr) (mem : Memory ops Obj) : Except Fault Bool := do
  let pos ← mem.next head
  return decide (pos = head)

/-- `list_for_each` from a position on; the body may return. -/
def forEachFrom (read : Obj → Option α) (body : τ → α → Except ρ τ) (head : Ptr)
    (mem : Memory ops Obj) : ℕ → Ptr → τ → Except Fault (Except ρ τ)
  | 0, _, _ => .error .outOfFuel
  | fuel + 1, pos, s =>
    if pos = head then .ok (.ok s)
    else do
      let entry ← mem.load read pos
      match body s entry with
      | .error returned => .ok (.error returned)
      | .ok s => do
        let pos ← mem.next pos
        forEachFrom read body head mem fuel pos s

def forEach (read : Obj → Option α) (body : τ → α → Except ρ τ) (head : Ptr) (fuel : ℕ)
    (mem : Memory ops Obj) (s : τ) : Except Fault (Except ρ τ) := do
  let pos ← mem.next head
  forEachFrom read body head mem fuel pos s

def fold (read : Obj → Option α) (f : τ → α → τ) (head : Ptr) (fuel : ℕ)
    (mem : Memory ops Obj) (s : τ) : Except Fault τ := do
  match ← mem.forEach read (fun s a => (.ok (f s a) : Except Empty τ)) head fuel s with
  | .ok s => return s
  | .error never => never.elim

def search (read : Obj → Option α) (test : α → Bool) (head : Ptr) (fuel : ℕ)
    (mem : Memory ops Obj) : Except Fault Bool := do
  let body (_ : Unit) (a : α) : Except Unit Unit := if test a then .error () else .ok ()
  match ← mem.forEach read body head fuel () with
  | .ok _ => return false
  | .error _ => return true

/-- `list_for_each` with a body that removes the first object it accepts and returns. -/
def removeFirstFrom (read : Obj → Option α) (test : α → Bool) (head : Ptr)
    (mem : Memory ops Obj) : ℕ → Ptr → Except Fault (Memory ops Obj)
  | 0, _ => .error .outOfFuel
  | fuel + 1, pos =>
    if pos = head then .ok mem
    else do
      let entry ← mem.load read pos
      if test entry then mem.remove pos
      else do
        let pos ← mem.next pos
        removeFirstFrom read test head mem fuel pos

def removeFirst (read : Obj → Option α) (test : α → Bool) (head : Ptr) (fuel : ℕ)
    (mem : Memory ops Obj) : Except Fault (Memory ops Obj) := do
  let pos ← mem.next head
  removeFirstFrom read test head mem fuel pos

/-- `list_for_each_safe`, whose body may free the object at hand; `n` is read ahead of
the body. -/
def sweepFrom (read : Obj → Option α) (body : α → Decision ρ) (head : Ptr) :
    ℕ → Ptr → Ptr → Memory ops Obj → Except Fault (Option ρ × Memory ops Obj)
  | 0, _, _, _ => .error .outOfFuel
  | fuel + 1, pos, n, mem =>
    if pos = head then .ok (none, mem)
    else do
      let entry ← mem.load read pos
      match body entry with
      | .stop returned => .ok (some returned, mem)
      | .keep => do
        let behind ← mem.next n
        sweepFrom read body head fuel n behind mem
      | .remove => do
        let mem ← mem.remove pos
        let behind ← mem.next n
        sweepFrom read body head fuel n behind mem

def sweep (read : Obj → Option α) (body : α → Decision ρ) (head : Ptr) (fuel : ℕ)
    (mem : Memory ops Obj) : Except Fault (Option ρ × Memory ops Obj) := do
  let pos ← mem.next head
  let n ← mem.next pos
  sweepFrom read body head fuel pos n mem

end Memory

end MaskPool.RingStore
