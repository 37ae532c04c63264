import FabricaNet.Go.Io

/-!
# Packs, sessions and errors

The values of package `xnet` that the codecs, the registry and the workers exchange.
-/

namespace FabricaNet

open Go

namespace Xnet

/-- `xnet.Pack`. -/
abbrev Pack := List UInt8

/-- `MaxPackSize`: the maximum size of the body. -/
def maxPackSize : Int32 := (1 : Int32) <<< (14 : Int32)

/-- `ErrWorkerNotFound`. -/
def errWorkerNotFound : Err := .sentinel "worker not found"

/-- `xsync.ErrIsStopped`. -/
def errIsStopped : Err := .sentinel "xsync.ErrIsStopped"

/-- The part of `xnet.session` that the registry and the server read. -/
structure Session where
  uid : Int64 := 0
  sid : Int64 := 0
  color : String := ""
deriving DecidableEq, Repr

/-! ## Cryptors -/

/-- `aes.Cipher`. `Encrypt` may draw random bytes: the number says which ones. -/
structure Cipher where
  encrypt : Nat → Pack → Except Err Pack
  decrypt : Pack → Except Err Pack

/-- The interface `xnet.Cryptor`, as far as the two ends of a connection use it. -/
structure Cryptor where
  encrypt : Nat → Pack → Except Err Pack
  decrypt : Pack → Except Err Pack

/-- `NewCryptor`. -/
def newCryptor (aes : Cipher) : Cryptor where
  encrypt := aes.encrypt
  decrypt := aes.decrypt

/-- `NewUnCryptor`, the cryptor of `DefaultSession`: both methods copy their argument. -/
def newUnCryptor : Cryptor where
  encrypt := fun _ data => .ok data
  decrypt := fun data => .ok data

/-- What the first encrypts the second decrypts. -/
def Cryptor.Matches (c c' : Cryptor) : Prop :=
  ∀ n pack out, c.encrypt n pack = .ok out → c'.decrypt out = .ok pack

end Xnet

end FabricaNet
