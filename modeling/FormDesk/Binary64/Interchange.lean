import FormDesk.Binary64.Basic

/-! The 64-bit interchange encoding: sign, 11 exponent bits, 52 fraction bits. -/
namespace FormDesk.Binary64

attribute [local instance (high)] instPowNat

/-- The value of 64 bits; of a longer number, of its lowest 64 bits. -/
def ofBits (bits : Nat) : Binary64 :=
  let negative := bits / 2 ^ (63 : Nat) % 2 == 1
  let exponent := bits / 2 ^ (52 : Nat) % 2 ^ (11 : Nat)
  let fraction := bits % 2 ^ (52 : Nat)
  have hf : fraction < 2 ^ (52 : Nat) := Nat.mod_lt _ (Nat.two_pow_pos 52)
  have he : exponent < 2 ^ (11 : Nat) := Nat.mod_lt _ (Nat.two_pow_pos 11)
  if hx : exponent = 2047 then
    if fraction = 0 then .infinity negative else .nan
  else if exponent = 0 then
    .finite negative (.ofSignificand fraction 0 (by omega) (Nat.zero_le _))
  else
    .finite negative (.ofSignificand (2 ^ (52 : Nat) + fraction) (exponent - 1) (by omega)
      (by unfold maxPlace; omega))

def Magnitude.bits (m : Magnitude) : Nat :=
  let place := lastPlace m.units
  m.units / 2 ^ place + place * 2 ^ (52 : Nat)

/-- The bits of a value; a quiet NaN without payload stands for every NaN. -/
def toBits : Binary64 → Nat
  | .nan => 2047 * 2 ^ (52 : Nat) + 2 ^ (51 : Nat)
  | .infinity negative => negative.toNat * 2 ^ (63 : Nat) + 2047 * 2 ^ (52 : Nat)
  | .finite negative m => negative.toNat * 2 ^ (63 : Nat) + m.bits

end FormDesk.Binary64
