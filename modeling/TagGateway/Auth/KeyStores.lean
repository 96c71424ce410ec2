import TagGateway.Auth.Signer
import TagGateway.Auth.Validator
import TagGateway.Foundation.ExpiringCache

/-!
# What the gateway learns about its clients

In transparent mode upstream hands out derived signing keys, wrapped for the client
whose request it answered. They are kept by access key, day and region. A second cache
remembers for which buckets an access key was let in.
-/
namespace TagGateway.Auth

open Foundation

structure SigningKeyEntry where
  date : Bytes
  region : Bytes
  signingKey : Bytes
deriving DecidableEq

/-- What the learning of keys takes from elsewhere besides the signature's platform.
`gcmOpen` is keyed with the hash of the proxy's secret; `queryError` tells whether a query
has a part that does not parse. -/
structure KeyLib extends Stdlib where
  decodeBase64 : Bytes → Option Bytes
  decodeHex : Bytes → Option Bytes
  gcmOverhead : ℕ
  gcmOpen : Bytes → Bytes → Bytes → Option Bytes
  unmarshalEntries : Bytes → Option (List SigningKeyEntry)
  queryError : Bytes → Bool

def gcmNonceSize : ℕ := 12

def unwrap (lib : KeyLib) (headerValue accessKey : Bytes) : Option (List SigningKeyEntry) := do
  let raw ← lib.decodeBase64 headerValue
  if raw.length < gcmNonceSize + 1 + lib.gcmOverhead then none
  else
    let plaintext ← lib.gcmOpen (raw.take gcmNonceSize) (raw.drop gcmNonceSize) accessKey
    lib.unmarshalEntries plaintext

def nul : UInt8 := 0

def makeKey (accessKey date region : Bytes) : Bytes :=
  accessKey ++ nul :: (date ++ nul :: region)

def authzKey (accessKey bucket : Bytes) : Bytes := accessKey ++ nul :: bucket

/-- A composite key tells its first part when that holds no separator. -/
theorem eq_of_append_nul {a a' rest rest' : Bytes} (ha : nul ∉ a) (ha' : nul ∉ a')
    (h : a ++ nul :: rest = a' ++ nul :: rest') : a = a' ∧ rest = rest' := by
  have hcut := congrArg (cutAt nul) h
  rw [cutAt_append ha, cutAt_append ha', Option.some.injEq, Prod.mk.injEq] at hcut
  exact hcut

def defaultDerivedKeyTTL : ℤ := 48 * 3600 * second

def defaultAuthzCacheTTL : ℤ := 10 * 60 * second

/-! ## The signing keys -/

structure DerivedKeyStore where
  keys : ExpiringCache Bytes Bytes
  accessKeys : ExpiringCache Bytes Unit

namespace DerivedKeyStore

def new (ttl : ℤ) : DerivedKeyStore :=
  let ttl := if ttl ≤ 0 then defaultDerivedKeyTTL else ttl
  ⟨.empty ttl, .empty ttl⟩

variable (d : DerivedKeyStore) (now : ℤ)

def store (accessKey date region signingKey : Bytes) : DerivedKeyStore where
  keys := d.keys.add now (makeKey accessKey date region) signingKey
  accessKeys := d.accessKeys.add now accessKey ()

def getSigningKey (accessKey date region : Bytes) : Option Bytes :=
  d.keys.get now (makeKey accessKey date region)

def hasKey (accessKey : Bytes) : Bool := (d.accessKeys.get now accessKey).isSome

end DerivedKeyStore

/-! ## The secrets -/

structure CredentialStore where
  credentials : List (Bytes × Bytes)

namespace CredentialStore

variable (c : CredentialStore)

def getSecretKey (accessKey : Bytes) : Option Bytes := c.credentials.lookup accessKey

def getSigningKey (lib : Stdlib) (accessKey date region : Bytes) : Option Bytes :=
  (c.getSecretKey accessKey).map fun secretKey => deriveSigningKey lib secretKey date region

end CredentialStore

/-! ## The grants -/

structure AuthzCache where
  cache : ExpiringCache Bytes Unit

namespace AuthzCache

def lifetime (ttl : ℤ) : ℤ := if ttl ≤ 0 then defaultAuthzCacheTTL else ttl

def new (ttl : ℤ) : AuthzCache := ⟨.empty (lifetime ttl)⟩

variable (c : AuthzCache)

def isAuthorized (now : ℤ) (accessKey bucket : Bytes) : Bool :=
  (c.cache.get now (authzKey accessKey bucket)).isSome

def grant (now : ℤ) (accessKey bucket : Bytes) : AuthzCache :=
  ⟨c.cache.add now (authzKey accessKey bucket) ()⟩

def revoke (accessKey bucket : Bytes) : AuthzCache :=
  ⟨c.cache.remove (authzKey accessKey bucket)⟩

end AuthzCache

end TagGateway.Auth
