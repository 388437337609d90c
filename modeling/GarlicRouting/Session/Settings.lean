import GarlicRouting.Clock

/-! Settings of sessions: times in seconds and sizes of tag pools. -/
namespace GarlicRouting

structure Settings where
  /-- A send that stays unconfirmed this long is encrypted again. -/
  resendInterval : Nat := 15
  /-- A send is forgotten after this time. -/
  windowLifetime : Nat := 120
  /-- Minted tags wait this long for their acknowledgment. -/
  pendingTagLifetime : Nat := 120
  sentTagLifetime : Nat := 1800
  receivedTagLifetime : Nat := 1020
  /-- Sent tags this close to the end of their lifetime are not used. -/
  tagGuardMargin : Nat := 180
  /-- New tags are minted when no more than this many are left. -/
  lowWatermark : Nat := 7
  /-- The number of tags minted at a time. -/
  refillBatch : Nat := 15
  /-- An explicit acknowledgment gets a clove of its own beside one for new tags. -/
  explicitAckClove : Bool := true
deriving DecidableEq

/-- A setting that must not be zero. -/
inductive PositiveSetting where
  | resendInterval | refillBatch | receivedTagLifetime | pendingTagLifetime
deriving DecidableEq

def PositiveSetting.name : PositiveSetting → String
  | resendInterval => "resend_interval_secs"
  | refillBatch => "refill_batch"
  | receivedTagLifetime => "received_tag_lifetime_secs"
  | pendingTagLifetime => "pending_tag_lifetime_secs"

inductive SettingsFault where
  | zero (setting : PositiveSetting)
  | guardMargin (margin lifetime : Nat)
  | windowTooShort (window resend : Nat)
deriving DecidableEq

def SettingsFault.message : SettingsFault → String
  | zero setting => s!"{setting.name} must be greater than zero"
  | guardMargin margin lifetime =>
    s!"tag guard margin ({margin}s) must be shorter than the sent-tag lifetime ({lifetime}s)"
  | windowTooShort window resend =>
    s!"window lifetime ({window}s) must exceed the resend interval ({resend}s)"

namespace Settings

/-- The first rule that is broken, if any. -/
def validate (s : Settings) : Except SettingsFault Unit := do
  if s.resendInterval = 0 then throw (.zero .resendInterval)
  if s.refillBatch = 0 then throw (.zero .refillBatch)
  if s.receivedTagLifetime = 0 then throw (.zero .receivedTagLifetime)
  if s.pendingTagLifetime = 0 then throw (.zero .pendingTagLifetime)
  if s.sentTagLifetime ≤ s.tagGuardMargin then
    throw (.guardMargin s.tagGuardMargin s.sentTagLifetime)
  if s.windowLifetime ≤ s.resendInterval then
    throw (.windowTooShort s.windowLifetime s.resendInterval)

def resendSpan (s : Settings) : Span := .ofSeconds s.resendInterval

/-- Maintenance is due four times in a resend interval. -/
def tickSpan (s : Settings) : Span := s.resendSpan.quarter

def windowSpan (s : Settings) : Span := .ofSeconds s.windowLifetime

def pendingTagSpan (s : Settings) : Span := .ofSeconds s.pendingTagLifetime

/-- The lifetime of sent tags less the guard margin. -/
def usableTagSpan (s : Settings) : Span := .ofSeconds (s.sentTagLifetime - s.tagGuardMargin)

def receivedTagSpan (s : Settings) : Span := .ofSeconds s.receivedTagLifetime

end Settings

end GarlicRouting
