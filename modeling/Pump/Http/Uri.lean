import Mathlib
import Pump.Utils

/-! # uri

    The members of `http::uri` that a request reads and writes. -/

namespace Pump

abbrev ParamMap := Std.ExtTreeMap Bytes Bytes compare

/-- `http::uri`. -/
structure Uri where
  tp : Bytes
  host : Bytes
  path : Bytes
  params : ParamMap
  deriving DecidableEq

namespace Uri

/-- The constructor; `uri_end` is the empty type. -/
def construct : Uri := ⟨[], [], [], ∅⟩

def set_host (u : Uri) (host : Bytes) : Uri := { u with host := host }

def set_path (u : Uri) (path : Bytes) : Uri := { u with path := path }

def set_param (u : Uri) (key value : Bytes) : Uri :=
  { u with params := u.params.insert key value }

/-- The loop over the split parameters; `none` for an odd number of them. -/
def set_params (u : Uri) : List Bytes → Option Uri
  | [] => some u
  | [_] => none
  | key :: value :: vals => set_params (u.set_param key value) vals

end Uri

end Pump
