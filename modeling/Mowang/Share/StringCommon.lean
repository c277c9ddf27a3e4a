import Mowang.Share.BinaryString

/-!
# `Share.StringCommon` — `gx_to_string`

A format and the values passed for it. `printf` is `none` where a value has another type than its directive asks for,
or where there is no value.
-/

namespace Mowang

/-- A value behind the `...`, after its promotion. -/
inductive PrintfArg
  | int (v : Int)
  | uint (v : Nat)
  | ulong (v : Nat)
  | str (s : List UInt8)

/-- The directives are `%d`, `%u`, `%llu` and `%s`. -/
def printf : List Char → List PrintfArg → Option (List UInt8)
  | '%' :: 'd' :: fmt, .int v :: args                 => (printf fmt args).map (decimalInt v ++ ·)
  | '%' :: 'u' :: fmt, .uint v :: args                => (printf fmt args).map (decimal v ++ ·)
  | '%' :: 'l' :: 'l' :: 'u' :: fmt, .ulong v :: args => (printf fmt args).map (decimal v ++ ·)
  | '%' :: 's' :: fmt, .str s :: args                 => (printf fmt args).map (s ++ ·)
  | '%' :: _, _                                       => none
  | c :: fmt, args                                    => (printf fmt args).map (c.toNat.toUInt8 :: ·)
  | [], _                                             => some []

/-- `gx_to_string`. -/
def gxToString (fmt : String) (args : List PrintfArg) : Option (List UInt8) := (printf fmt.toList args).map mwToString

/-- A text that is not cut. -/
theorem gxToString_eq_some {fmt : String} {args : List PrintfArg} {text : List UInt8}
    (h : printf fmt.toList args = some text) (hlen : text.length ≤ 2046) : gxToString fmt args = some text := by
  rw [gxToString, h, Option.map_some, mwToString_eq_self hlen]

end Mowang
