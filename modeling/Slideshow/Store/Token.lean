import Slideshow.Program
import Slideshow.Store.Error

/-! # Access tokens

Tokens come from a provider and are kept until shortly before they expire. When the provider fails,
a token that has not expired yet is used a little longer. -/

namespace Slideshow

/-- A token with the millisecond at which it expires. -/
structure AccessToken where
  text : String
  expiresAt : Nat
deriving Repr, DecidableEq

namespace AccessToken

/-- How long before it expires a token is replaced. -/
def refreshMarginMs : Nat := 60000

/-- Whether a token need not be replaced yet. -/
def isFresh (t : AccessToken) (now : Nat) : Bool := now + refreshMarginMs < t.expiresAt

/-- Whether a token has not expired. -/
def isUsable (t : AccessToken) (now : Nat) : Bool := now < t.expiresAt

/-- What tokens are asked for. -/
def scope : String := "https://www.googleapis.com/auth/datastore"

end AccessToken

/-- What a provider of tokens is asked; it answers with a token or says why not. -/
inductive ProviderCall where
  | issue
deriving Repr, DecidableEq

/-- What a provider answers with. -/
def ProviderCall.Answer : ProviderCall → Type
  | issue => Except String AccessToken

/-- The token kept, if any. -/
structure TokenCache where
  kept : Option AccessToken := none
deriving Repr, DecidableEq

namespace TokenCache

/-- Asks the provider. -/
def issue : Program ProviderCall.Answer (Except String AccessToken) :=
  Program.ask ProviderCall.issue

/-- Replaces the token kept. A token that has expired already is used once. -/
def refresh (c : TokenCache) (now : Nat) :
    Program ProviderCall.Answer (Except StoreError String × TokenCache) := do
  match ← issue with
  | .ok t => return (.ok t.text, ⟨some { t with expiresAt := max now t.expiresAt }⟩)
  | .error reason =>
    match c.kept.filter (·.isUsable now) with
    | some t => return (.ok t.text, c)
    | none => return (.error (.unauthenticated ("Failed to obtain auth token: " ++ reason)), c)

/-- A token at a time. -/
def token (c : TokenCache) (now : Nat) :
    Program ProviderCall.Answer (Except StoreError String × TokenCache) :=
  match c.kept.filter (·.isFresh now) with
  | some t => return (.ok t.text, c)
  | none => c.refresh now

/-- Forgets the token kept, after the store refused it. -/
def invalidate (_ : TokenCache) : TokenCache := {}

end TokenCache

end Slideshow
