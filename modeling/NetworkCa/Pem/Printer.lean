import NetworkCa.Pem.Reader

namespace NetworkCa.Pem

def lineLength : Nat := 64

def wrapped (symbols : Bytes) : Nat → Bytes
  | 0 => []
  | fuel + 1 =>
    match symbols with
    | [] => []
    | _ => symbols.take lineLength ++ 10 :: wrapped (symbols.drop lineLength) fuel

def Block.print (b : Block) : Bytes :=
  let symbols := Text.Base64.encode b.contents
  beginMark ++ ascii b.label ++ dashes ++ 10 :: wrapped symbols (symbols.length + 1) ++
    endMark ++ ascii b.label ++ dashes ++ [10]

end NetworkCa.Pem
