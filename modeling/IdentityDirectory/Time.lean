/-!
Instants are signed 64-bit counts of milliseconds. Their sums and differences stop at the ends of
that range; only moving the clock itself wraps around. A lifetime is a signed 32-bit count of whole
seconds from the moment of a write.
-/

namespace IdentityDirectory.Time

def earliest : Int := -0x8000000000000000

def latest : Int := 0x7FFFFFFFFFFFFFFF

def clamp (x : Int) : Int := max earliest (min latest x)

def add (a b : Int) : Int := clamp (a + b)

def sub (a b : Int) : Int := clamp (a - b)

def ofSeconds (s : Int) : Int := clamp (s * 1000)

def advanceMillis (now step : Int) : Int := (now + step).bmod 0x10000000000000000

def advanceSeconds (now step : Int) : Int := advanceMillis now (ofSeconds step)

end IdentityDirectory.Time

namespace IdentityDirectory.Lifetime

def shortest : Int := -0x80000000

def longest : Int := 0x7FFFFFFF

/-- Rounded down, so that a row never outlasts `expiration`. -/
def untilExpiration (expiration now : Int) : Int :=
  max shortest (min longest (Time.sub expiration now / 1000))

def deadline (lifetime now : Int) : Int := Time.add now (lifetime * 1000)

end IdentityDirectory.Lifetime

namespace IdentityDirectory

class Expirable (α : Type) where
  expiration : α → Option Int

def Lifetime.of {α : Type} [Expirable α] (record : α) (now : Int) : Option Int :=
  (Expirable.expiration record).map (Lifetime.untilExpiration · now)

end IdentityDirectory
