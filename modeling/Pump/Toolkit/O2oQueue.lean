import Pump.Lts
import Pump.Utils

/-! # freelock_o2o_queue

    `toolkit/freelock_o2o_queue.h`: a ring of blocks, each of them a ring of
    cells with its own head and tail. One thread pushes and one pops, and the
    steps of the two interleave: a step is one access to what the threads
    share, with what its thread does before the next one. Creating a block
    succeeds. -/

namespace Pump

namespace O2o

variable {τ : Type}

/-- `block_node`. A pointer is the number of a block. The cells of `data`
    are raw memory where they hold `none`. -/
structure BlockNode (τ : Type) where
  next : Nat
  head : Nat
  cache_tail : Nat
  tail : Nat
  cache_head : Nat
  data : List (Option τ)

/-- The constructor, with the memory that is allocated for `data`. -/
def BlockNode.construct (next cells : Nat) : BlockNode τ :=
  ⟨next, 0, 0, 0, 0, List.replicate cells none⟩

/-- Where `push` is, with its locals. -/
inductive Push (τ : Type) where
  | idle
  | blk (v : τ)
  | tail (v : τ) (blk : Nat)
  | cached (v : τ) (blk tail : Nat)
  | head (v : τ) (blk tail : Nat)
  | write (v : τ) (blk tail : Nat)
  | store (v : τ) (blk tail : Nat)
  | next (v : τ) (blk : Nat)
  | enter (v : τ) (blk : Nat)
  | enter_write (v : τ) (blk tail : Nat)
  | enter_store (v : τ) (blk tail : Nat)
  | move (v : τ) (blk : Nat)
  | create (v : τ) (blk : Nat)
  | link (v : τ) (blk new_blk : Nat)
  | new_write (v : τ) (blk : Nat)
  | new_cache (v : τ) (blk : Nat)
  | new_tail (v : τ) (blk : Nat)
  | new_move (v : τ) (blk : Nat)
  | capacity (v : τ)
  deriving DecidableEq

/-- Where `pop` is, with its locals. -/
inductive Pop (τ : Type) where
  | idle
  | blk
  | head (blk : Nat)
  | cached (blk head : Nat)
  | tail (blk head : Nat)
  | moved (blk head : Nat)
  | last (blk head : Nat)
  | next (blk : Nat)
  | move (blk : Nat)
  | next_head (blk : Nat)
  | next_tail (blk head : Nat)
  | read (blk head : Nat)
  | store (blk head : Nat) (data : Option τ)
  deriving DecidableEq

/-- The queue and its two threads. For the history, `pushed` are the values
    `push` was called with, `returned` of these calls have returned, and
    `popped` is what the calls of `pop` that returned `true` have put into
    `data`; when the last `pop` was called, `returned_before` had returned. -/
structure State (τ : Type) where
  no_constructor : Bool
  block_element_size_mask : Nat
  capacity : BitVec 32
  block_element_size : BitVec 32
  blk_head : Nat
  blk_tail : Nat
  blocks : Nat → BlockNode τ
  created : Nat
  producer : Push τ
  consumer : Pop τ
  pushed : List τ
  returned : Nat
  popped : List (Option τ)
  returned_before : Nat

inductive Label (τ : Type) where
  | push (v : τ)
  | produce
  | pop
  | consume

/-! ## Section 1: Construction -/

/-- `__init_list`: the loop links each block to the one it creates next, and
    the last one is linked to the head. -/
def init_list (cells blk_count : Nat) (i : Nat) : BlockNode τ :=
  BlockNode.construct (if i + 1 < blk_count then i + 1 else 0) cells

/-- `freelock_o2o_queue(size)` for `PerBlockElementCount`. The head is
    created for any `blk_count`. -/
def construct (no_constructor : Bool) (PerBlockElementCount : BitVec 32) (size : BitVec 32) :
    State τ :=
  let block_element_size := ceil_to_power_of_two PerBlockElementCount
  let blk_count := size.toInt.tdiv (block_element_size.toInt + 1) + 1
  { no_constructor := no_constructor
    block_element_size_mask := (block_element_size - 1).toNat
    capacity := block_element_size * BitVec.ofInt 32 blk_count
    block_element_size := block_element_size
    blk_head := 0
    blk_tail := 0
    blocks := init_list block_element_size.toNat blk_count.toNat
    created := max 1 blk_count.toNat
    producer := .idle
    consumer := .idle
    pushed := []
    returned := 0
    popped := []
    returned_before := 0 }

/-! ## Section 2: Steps -/

namespace State

/-- The position behind `pos`. -/
def behind (s : State τ) (pos : Nat) : Nat := (pos + 1) &&& s.block_element_size_mask

def set_block (s : State τ) (b : Nat) (n : BlockNode τ) : State τ :=
  { s with blocks := Function.update s.blocks b n }

@[simp] theorem set_block_self (s : State τ) (b : Nat) (n : BlockNode τ) :
    (s.set_block b n).blocks b = n := by
  simp [set_block]

theorem set_block_of_ne (s : State τ) {b c : Nat} (n : BlockNode τ) (hc : c ≠ b) :
    (s.set_block b n).blocks c = s.blocks c := by
  simp [set_block, hc]

/-- `return true` of `push`. -/
def push_returns (s : State τ) : State τ :=
  { s with producer := .idle, returned := s.returned + 1 }

/-- The next step of `push`. -/
def produce (s : State τ) : Option (State τ) :=
  match s.producer with
  | .idle => none
  | .blk v => some { s with producer := .tail v s.blk_tail }
  | .tail v blk => some { s with producer := .cached v blk (s.blocks blk).tail }
  | .cached v blk tail =>
    if s.behind tail ≠ (s.blocks blk).cache_head then some { s with producer := .write v blk tail }
    else some { s with producer := .head v blk tail }
  | .head v blk tail =>
    let s := s.set_block blk { s.blocks blk with cache_head := (s.blocks blk).head }
    if s.behind tail ≠ (s.blocks blk).cache_head then some { s with producer := .write v blk tail }
    else some { s with producer := .next v blk }
  | .write v blk tail =>
    let s := s.set_block blk { s.blocks blk with data := (s.blocks blk).data.set tail (some v) }
    some { s with producer := .store v blk tail }
  | .store _ blk tail =>
    let s := s.set_block blk { s.blocks blk with tail := s.behind tail }
    some s.push_returns
  | .next v blk =>
    if (s.blocks blk).next ≠ s.blk_head then
      some { s with producer := .enter v (s.blocks blk).next }
    else some { s with producer := .create v blk }
  | .enter v blk =>
    let head := (s.blocks blk).head
    let s := s.set_block blk { s.blocks blk with cache_head := head }
    some { s with producer := .enter_write v blk head }
  | .enter_write v blk tail =>
    let s := s.set_block blk { s.blocks blk with data := (s.blocks blk).data.set tail (some v) }
    some { s with producer := .enter_store v blk tail }
  | .enter_store v blk tail =>
    let s := s.set_block blk { s.blocks blk with tail := s.behind tail }
    some { s with producer := .move v blk }
  | .move _ blk => some ({ s with blk_tail := blk } : State τ).push_returns
  | .create v blk =>
    -- the new block is not shared yet
    let s' := s.set_block s.created
      (BlockNode.construct (s.blocks blk).next (s.block_element_size_mask + 1))
    some { s' with created := s.created + 1, producer := .link v blk s.created }
  | .link v blk new_blk =>
    let s := s.set_block blk { s.blocks blk with next := new_blk }
    some { s with producer := .new_write v new_blk }
  | .new_write v blk =>
    let s := s.set_block blk { s.blocks blk with data := (s.blocks blk).data.set 0 (some v) }
    some { s with producer := .new_cache v blk }
  | .new_cache v blk =>
    let s := s.set_block blk { s.blocks blk with cache_tail := 1 }
    some { s with producer := .new_tail v blk }
  | .new_tail v blk =>
    let s := s.set_block blk { s.blocks blk with tail := 1 }
    some { s with producer := .new_move v blk }
  | .new_move v blk => some { s with blk_tail := blk, producer := .capacity v }
  | .capacity _ =>
    some ({ s with capacity := s.capacity + s.block_element_size } : State τ).push_returns

/-- The next step of `pop`. An element with a destructor is destroyed when
    it is moved out of its cell. -/
def consume (s : State τ) : Option (State τ) :=
  match s.consumer with
  | .idle => none
  | .blk => some { s with consumer := .head s.blk_head }
  | .head blk => some { s with consumer := .cached blk (s.blocks blk).head }
  | .cached blk head =>
    if head ≠ (s.blocks blk).cache_tail then some { s with consumer := .read blk head }
    else some { s with consumer := .tail blk head }
  | .tail blk head =>
    let s := s.set_block blk { s.blocks blk with cache_tail := (s.blocks blk).tail }
    if head ≠ (s.blocks blk).cache_tail then some { s with consumer := .read blk head }
    else some { s with consumer := .moved blk head }
  | .moved blk head =>
    if blk ≠ s.blk_tail then some { s with consumer := .last blk head }
    else
      -- return false
      some { s with consumer := .idle }
  | .last blk head =>
    let s := s.set_block blk { s.blocks blk with cache_tail := (s.blocks blk).tail }
    if head = (s.blocks blk).cache_tail then some { s with consumer := .next blk }
    else some { s with consumer := .read blk head }
  | .next blk => some { s with consumer := .move (s.blocks blk).next }
  | .move blk => some { s with blk_head := blk, consumer := .next_head blk }
  | .next_head blk => some { s with consumer := .next_tail blk (s.blocks blk).head }
  | .next_tail blk head =>
    let s := s.set_block blk { s.blocks blk with cache_tail := (s.blocks blk).tail }
    some { s with consumer := .read blk head }
  | .read blk head =>
    let data := (s.blocks blk).data.getD head none
    let cells := if s.no_constructor then (s.blocks blk).data
      else (s.blocks blk).data.set head none
    let s := s.set_block blk { s.blocks blk with data := cells }
    some { s with consumer := .store blk head data }
  | .store blk head data =>
    let s := s.set_block blk { s.blocks blk with head := s.behind head }
    some { s with consumer := .idle, popped := s.popped ++ [data] }

/-- A step of one of the threads. -/
def step (s : State τ) : Label τ → Option (State τ)
  | .push v =>
    match s.producer with
    | .idle => some { s with producer := .blk v, pushed := s.pushed ++ [v] }
    | _ => none
  | .produce => s.produce
  | .pop =>
    match s.consumer with
    | .idle => some { s with consumer := .blk, returned_before := s.returned }
    | _ => none
  | .consume => s.consume

end State

end O2o

end Pump
