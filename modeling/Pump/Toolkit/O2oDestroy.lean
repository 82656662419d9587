import Pump.Loop
import Pump.Toolkit.O2oFifo

/-! # The destructor of a queue for one producer and one consumer

    `~freelock_o2o_queue` walks from the head block until it comes to the tail
    block. A step is one turn of one of its loops, or what is between them. -/

namespace Pump

namespace O2o

variable {τ : Type}

/-! ## Section 1: The walk -/

namespace State

variable {s : State τ} {used free : List Nat} {items : Nat → List τ} {out : List τ}

/-- Between calls the ring is that of the used and the free blocks. -/
theorem InvFor.ring (h : s.InvFor used free items out) (hidle : s.producer = .idle) :
    Links (fun c => (s.blocks c).next) (s.blk_head :: (used.tail ++ free)) s.blk_head := by
  have hlinked := h.layout.linked
  rw [hidle] at hlinked
  change Links _ (used ++ ([] ++ free)) _ at hlinked
  rw [List.nil_append, h.layout.used_eq, List.cons_append] at hlinked
  exact hlinked

/-- Between calls what was pushed is what was popped and what is stored. -/
theorem InvFor.stored (h : s.InvFor used free items out) (hidle : s.producer = .idle) :
    s.pushed.drop s.popped.length = Layout.content used items := by
  have horder := h.order
  rw [hidle, show (Push.idle : Push τ).waiting = [] from rfl, List.append_nil] at horder
  have hlen : s.popped.length = out.length := by rw [h.popped, List.length_map]
  rw [← horder, hlen, List.drop_left]

end State

end O2o

end Pump
