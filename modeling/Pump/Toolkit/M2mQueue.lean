import Pump.Lts
import Pump.Utils

/-! # freelock_m2m_queue

    `toolkit/freelock_m2m_queue.h`: a ring of nodes. `head_` is the node that
    the next push reserves, and the node behind `tail_` is the one that the
    next pop reads. A push that finds the ring full locks the head with a null
    pointer and inserts a block of nodes.

    A step of `push` or `pop` is one access to what the threads share, with
    what the thread does before the next one. The list of blocks, which only
    the destructor walks, is left out. -/

namespace Pump

namespace M2m

/-! ## Section 1: Model -/

/-- What the threads share. A pointer is the number of a node, `none` is the
    null pointer, and `ready` is 1 where it is `true`. -/
structure Nodes (τ : Type) where
  next : Nat → Nat
  ready : Nat → Bool
  data : Nat → Option τ
  head : Option Nat
  tail : Nat
  created : Nat
  capacity : BitVec 32

/-- Where a `push` or `pop` is, with its locals. -/
inductive Op (τ : Type) where
  | push_load (v : τ)
  | push_head (v : τ) (node : Option Nat)
  | push_next (v : τ) (node next : Nat)
  | push_desired (v : τ) (node : Nat)
  | push_exchange (v : τ) (node desired : Nat)
  | extend_lock (v : τ) (node : Nat)
  | extend_create (v : τ) (node : Nat)
  | extend_unlock (v : τ) (node : Nat)
  | extend_last (v : τ) (node block : Nat)
  | extend_link (v : τ) (node block : Nat)
  | extend_publish (v : τ) (node : Nat)
  | extend_capacity (v : τ) (node : Nat)
  | push_wait (v : τ) (node : Nat)
  | push_data (v : τ) (node : Nat)
  | push_ready (v : τ) (node : Nat)
  | pop_load
  | pop_next (tail : Nat)
  | pop_check (tail node : Nat)
  | pop_exchange (tail node : Nat)
  | pop_data (node : Nat)
  | pop_ready (node : Nat) (data : Option τ)
  deriving DecidableEq

/-- What a `push` or `pop` returns; `popped` is `true` with the element. -/
inductive Result (τ : Type) where
  | pushed (v : τ)
  | popped (data : Option τ)
  | empty
  deriving DecidableEq

/-- The operation goes on or returns. -/
inductive Turn (τ : Type) where
  | goes (op : Op τ)
  | returns (r : Result τ)
  deriving DecidableEq

variable {τ : Type}

/-- `__init_list`: the nodes of all blocks, each linked to the one behind it
    and the last one to the first. -/
def init_list (PerBlockElementCount : Nat) (size : Int) : Nodes τ :=
  let blocks := max 1 ((size + PerBlockElementCount - 1) / PerBlockElementCount).toNat
  let count := blocks * PerBlockElementCount
  { next := fun n => if n + 1 < count then n + 1 else 0
    ready := fun _ => false
    data := fun _ => none
    head := some 0
    tail := count - 1
    created := count
    capacity := BitVec.ofNat 32 count }

/-- The next step. `created` is whether a block can be created. -/
def Op.step (PerBlockElementCount : Nat) (created : Bool) (q : Nodes τ) : Op τ → Nodes τ × Turn τ
  | .push_load v => (q, .goes (.push_head v q.head))
  | .push_head v none => (q, .goes (.push_head v q.head))
  | .push_head v (some node) => (q, .goes (.push_next v node (q.next node)))
  | .push_next v node next =>
    if next ≠ q.tail then (q, .goes (.push_desired v node))
    else (q, .goes (.extend_lock v node))
  | .push_desired v node => (q, .goes (.push_exchange v node (q.next node)))
  | .push_exchange v node desired =>
    if q.head = some node then ({ q with head := some desired }, .goes (.push_wait v node))
    else (q, .goes (.push_head v q.head))
  | .extend_lock v node =>
    if q.head = some node then ({ q with head := none }, .goes (.extend_create v node))
    else (q, .goes (.push_head v q.head))
  | .extend_create v node =>
    if created then
      -- the constructors of the nodes
      let block := q.created
      let inside := fun n => block ≤ n ∧ n < block + PerBlockElementCount
      ({ q with
          next := fun n => if inside n then n + 1 else q.next n
          ready := fun n => if inside n then false else q.ready n
          data := fun n => if inside n then none else q.data n
          created := block + PerBlockElementCount }, .goes (.extend_last v node block))
    else (q, .goes (.extend_unlock v node))
  | .extend_unlock v node => ({ q with head := some node }, .goes (.push_head v (some node)))
  | .extend_last v node block =>
    ({ q with next := Function.update q.next (block + PerBlockElementCount - 1) (q.next node) },
      .goes (.extend_link v node block))
  | .extend_link v node block =>
    ({ q with next := Function.update q.next node block }, .goes (.extend_publish v node))
  | .extend_publish v node =>
    ({ q with head := some (q.next node) }, .goes (.extend_capacity v node))
  | .extend_capacity v node =>
    ({ q with capacity := q.capacity + BitVec.ofNat 32 PerBlockElementCount },
      .goes (.push_wait v node))
  | .push_wait v node =>
    if q.ready node then (q, .goes (.push_wait v node)) else (q, .goes (.push_data v node))
  | .push_data v node =>
    ({ q with data := Function.update q.data node (some v) }, .goes (.push_ready v node))
  | .push_ready v node =>
    ({ q with ready := Function.update q.ready node true }, .returns (.pushed v))
  | .pop_load => (q, .goes (.pop_next q.tail))
  | .pop_next tail => (q, .goes (.pop_check tail (q.next tail)))
  | .pop_check tail node =>
    if q.ready node then (q, .goes (.pop_exchange tail node)) else (q, .returns .empty)
  | .pop_exchange tail node =>
    if q.tail = tail then ({ q with tail := node }, .goes (.pop_data node))
    else (q, .goes (.pop_next q.tail))
  | .pop_data node => (q, .goes (.pop_ready node (q.data node)))
  | .pop_ready node data =>
    ({ q with ready := Function.update q.ready node false }, .returns (.popped data))

/-- The step from one operation to the other reserves a node. -/
def Op.reserves : Op τ → Op τ → Bool
  | .push_exchange .., .push_wait .. | .extend_publish .., .extend_capacity .. => true
  | _, _ => false

end M2m

end Pump
