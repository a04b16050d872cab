import SentirumLb.Lib.AssocMap
import SentirumLb.Lib.Text

/-! # Route definitions

A route definition is one `route add`, `route del` or `route weight` command,
with the source it came from. Weights are `f64` in the code. Only the
operations the code applies to them are named here, so that results about
routing hold for any arithmetic, and numeric results can be about exact
rationals.
-/

namespace SentirumLb

/-- The `f64` operations of the weight code. No law is assumed of them. -/
class WeightArith (W : Type) extends Zero W, One W, Add W, Sub W, Mul W, Div W, NatCast W where
  lt : W → W → Bool
  le : W → W → Bool
  eq : W → W → Bool
  max : W → W → W
  /-- `x.clamp(lo, hi)`, with `x` last. -/
  clamp : W → W → W → W
  half : W
  maxValue : W
  /-- `x.round() as usize` -/
  roundUsize : W → ℕ
  /-- `x as u64` -/
  truncU64 : W → ℕ

/-- Weights as exact rationals. -/
instance : WeightArith ℚ where
  lt a b := decide (a < b)
  le a b := decide (a ≤ b)
  eq a b := decide (a = b)
  max a b := Max.max a b
  clamp lo hi x := if x < lo then lo else if hi < x then hi else x
  half := 1 / 2
  maxValue := (2 ^ 53 - 1) * 2 ^ 971
  roundUsize x := min ⌊x + 1 / 2⌋.toNat (2 ^ 64 - 1)
  truncU64 x := min ⌊x⌋.toNat (2 ^ 64 - 1)

inductive RouteCmd where
  | add
  | del
  | weight
  deriving DecidableEq, Repr

inductive RouteSource where
  | static
  | consulKv
  | consulService
  deriving DecidableEq, Repr

abbrev Opts := AssocMap String String

structure RouteDef (W : Type) where
  cmd : RouteCmd
  service : String
  src : String
  dst : String
  weight : W
  tags : List String
  opts : Opts
  source : RouteSource

variable {W : Type}

namespace RouteDef

def srcHost (d : RouteDef W) : String := Text.before '/' d.src

def srcPath (d : RouteDef W) : String := (Text.after '/' d.src).getD ""

/-- The host bucket an `add` or `weight` with this source addresses. -/
def host (d : RouteDef W) : String := Text.toAsciiLowercase d.srcHost

/-- The route path an `add` or `weight` with this source addresses. -/
def path (d : RouteDef W) : String := if d.srcPath = "" then "/" else "/" ++ d.srcPath

/-- The path filter of a `del` with this source; `none` stands for every path of the host. -/
def delPath (d : RouteDef W) : Option String :=
  if d.srcPath = "" then none else some ("/" ++ d.srcPath)

def delUrl (d : RouteDef W) : Option String := if d.dst = "" then none else some d.dst

theorem isAsciiLowercase_host (d : RouteDef W) : Text.IsAsciiLowercase d.host :=
  Text.isAsciiLowercase_toAsciiLowercase _

theorem head_path (d : RouteDef W) : d.path.toList.head? = some '/' := by
  unfold path
  split
  · rfl
  · simp

end RouteDef

def exampleDef (source : RouteSource) (cmd : RouteCmd) (service dst : String) : RouteDef ℚ where
  cmd := cmd
  service := service
  src := "/api"
  dst := dst
  weight := 0
  tags := []
  opts := ∅
  source := source

end SentirumLb
