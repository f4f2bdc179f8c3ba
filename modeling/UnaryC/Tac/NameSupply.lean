import UnaryC.Text.Decimal

/-!
Names for temporaries. A supply hands out `tmp.0`, `tmp.1` and so on; the dot keeps them apart
from every identifier of a source text. A pool holds any number of supplies that do not know of
each other.
-/
namespace UnaryC.Tac

def tempName (n : Nat) : String :=
  "tmp." ++ Text.Decimal.ofNat n

structure NameSupply where
  /-- How many names have been handed out. -/
  issued : Nat := 0
deriving DecidableEq, Repr

namespace NameSupply

def fresh (s : NameSupply) : String × NameSupply :=
  (tempName s.issued, { issued := s.issued + 1 })

/-- What can be asked of a pool of supplies. -/
inductive Request where
  /-- Adds a supply to the pool. -/
  | create
  /-- Takes a name from the supply with that number. -/
  | draw (supply : Nat)
deriving DecidableEq, Repr

inductive Reply where
  | created (supply : Nat)
  | name (text : String)
deriving DecidableEq, Repr

/-- Supplies are numbered from 0 in the order of their creation. -/
abbrev Pool := List NameSupply

/-- Fails on a supply that is not there. -/
def Pool.serve (pool : Pool) : Request → Option (Reply × Pool)
  | .create => some (.created pool.length, pool ++ [{}])
  | .draw i => do
    let (text, s) := (← pool[i]?).fresh
    return (.name text, pool.set i s)

def Pool.serveAll (pool : Pool) : List Request → Option (List Reply)
  | [] => some []
  | request :: requests => do
    let (reply, pool) ← pool.serve request
    let replies ← Pool.serveAll pool requests
    return reply :: replies

end NameSupply

end UnaryC.Tac
