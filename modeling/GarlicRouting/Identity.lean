import GarlicRouting.Cipher.Sha256

/-! Identities, tunnels, session keys and session tags. -/
namespace GarlicRouting

/-- The digest that names a router or a destination. -/
structure Identity where
  octets : Octets 32
deriving DecidableEq

def Identity.ofPublic (bs : Bytes) : Identity := ⟨sha256 bs⟩

/-- The first eight octets stand for the whole. -/
def Identity.short (i : Identity) : String := hex (i.octets.toList.take 8)

def Identity.describe (i : Identity) : String := "IdentHash(" ++ i.short ++ ")"

instance : Ord Identity := ⟨fun a b => compare a.octets b.octets⟩

structure TunnelId where
  number : UInt32
deriving DecidableEq

def TunnelId.text (t : TunnelId) : String := toString t.number.toNat

def TunnelId.describe (t : TunnelId) : String := "TunnelId(" ++ t.text ++ ")"

/-- The symmetric key of a session. -/
structure SessionKey where
  octets : Octets 32
deriving DecidableEq

def SessionKey.describe (k : SessionKey) : String :=
  "SessionKey(" ++ hex (k.octets.toList.take 4) ++ "..)"

/-- A tag that opens one message under the session key it was minted with. -/
structure SessionTag where
  octets : Octets 32
deriving DecidableEq

def SessionTag.describe (t : SessionTag) : String :=
  "SessionTag(" ++ hex (t.octets.toList.take 6) ++ ")"

instance : Ord SessionTag := ⟨fun a b => compare a.octets b.octets⟩

end GarlicRouting
