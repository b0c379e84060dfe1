namespace NetworkCa

structure Duration where
  nanoseconds : Nat
  deriving Repr, DecidableEq

namespace Duration

def ofMilliseconds (n : Nat) : Duration := ⟨n * 1000000⟩

def ofSeconds (n : Nat) : Duration := ⟨n * 1000000000⟩

def fractionText (n places : Nat) : List Char :=
  let digits := (toString n).toList
  let padded := List.replicate (places - digits.length) '0' ++ digits
  (padded.reverse.dropWhile (· == '0')).reverse

def inUnit (n places : Nat) (unit : String) : String :=
  let whole := toString (n / Nat.pow 10 places)
  match fractionText (n % Nat.pow 10 places) places with
  | [] => whole ++ unit
  | digits => whole ++ "." ++ String.ofList digits ++ unit

def print (d : Duration) : String :=
  if d.nanoseconds ≥ 1000000000 then inUnit d.nanoseconds 9 "s"
  else if d.nanoseconds ≥ 1000000 then inUnit d.nanoseconds 6 "ms"
  else if d.nanoseconds ≥ 1000 then inUnit d.nanoseconds 3 "µs"
  else inUnit d.nanoseconds 0 "ns"

end Duration

end NetworkCa
