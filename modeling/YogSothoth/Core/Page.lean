import YogSothoth.Core.Text

namespace YogSothoth

inductive Window where
  | hour
  | day
  | week
  | month
  deriving DecidableEq

/-- The windows frozen periods are written for. -/
def Window.all : List Window := [.day, .week, .month]

def Window.hours : Window → Int
  | .hour => 1
  | .day => 24
  | .week => 168
  | .month => 720

def Window.asStr : Window → String
  | .hour => "1h"
  | .day => "24h"
  | .week => "7d"
  | .month => "30d"

inductive EventScope where
  | all
  | protocol (p : Protocol)
  | pool (p : Pubkey)
  deriving DecidableEq

inductive PoolScope where
  | all
  | protocol (p : Protocol)
  | token (mint : Pubkey)
  deriving DecidableEq

inductive LiquidityMoveScope where
  | protocol (p : Protocol)
  | pool (p : Pubkey)
  deriving DecidableEq

inductive LiquidityMoveKind where
  | create
  | add
  | remove
  deriving DecidableEq

def LiquidityMoveKind.asStr : LiquidityMoveKind → String
  | .create => "create"
  | .add => "add"
  | .remove => "remove"

structure LiquidityMoveList where
  scope : LiquidityMoveScope
  kind : Option LiquidityMoveKind
  deriving DecidableEq

inductive LiquidityMoveOrder where
  | amount
  | at_
  deriving DecidableEq

inductive RotationRunScope where
  | protocol (p : Protocol)
  | pool (p : Pubkey)
  deriving DecidableEq

inductive RotationRunOrder where
  | volume
  | at_
  deriving DecidableEq

inductive AnnouncementStatus where
  | upcoming
  | open_
  | closed
  deriving DecidableEq

def AnnouncementStatus.asStr : AnnouncementStatus → String
  | .upcoming => "upcoming"
  | .open_ => "open"
  | .closed => "closed"

structure SignalCursor where
  triggeredAt : Instant
  id : Int64
  deriving DecidableEq

structure TokenActivityCursor where
  lastHour : Instant
  volumeUsd : Decimal
  mint : Pubkey
  deriving DecidableEq

structure LiquidityMoveCursor where
  list : LiquidityMoveList
  window : Window
  asOf : Instant
  order : LiquidityMoveOrder
  amountUsd : Decimal
  at_ : Instant
  signature : String
  eventIndex : Int32
  deriving DecidableEq

structure PoolCursor where
  scope : PoolScope
  firstSeenAt : Instant
  poolAddress : Pubkey
  deriving DecidableEq

structure TokenCursor where
  fetchedAt : Instant
  mint : Pubkey
  deriving DecidableEq

structure TokenPriceCursor where
  mint : Pubkey
  from_ : Instant
  fetchedAt : Instant
  deriving DecidableEq

/-- The key of the last event of a page, and the list it was read from. -/
structure EventCursor where
  scope : EventScope
  from_ : Instant
  at_ : Instant
  signature : Signature
  eventIndex : UInt16
  deriving DecidableEq

structure AnnouncementCursor where
  status : Option AnnouncementStatus
  startsAt : Instant
  id : Int64
  deriving DecidableEq

structure RotationRunCursor where
  scope : RotationRunScope
  window : Window
  asOf : Instant
  order : RotationRunOrder
  volumeUsd : Decimal
  startedAt : Instant
  poolAddress : Pubkey
  deriving DecidableEq

/-- A cursor, one variant per paginated domain. -/
inductive Cursor where
  | signal (c : SignalCursor)
  | tokenActivity (c : TokenActivityCursor)
  | liquidityMove (c : LiquidityMoveCursor)
  | pool (c : PoolCursor)
  | token (c : TokenCursor)
  | tokenPrice (c : TokenPriceCursor)
  | swapEvent (c : EventCursor)
  | liquidityChangeEvent (c : EventCursor)
  | poolCreationEvent (c : EventCursor)
  | positionChangeEvent (c : EventCursor)
  | positionFeeClaimEvent (c : EventCursor)
  | protocolFeeClaimEvent (c : EventCursor)
  | rewardClaimEvent (c : EventCursor)
  | rewardChangeEvent (c : EventCursor)
  | poolChangeEvent (c : EventCursor)
  | announcement (c : AnnouncementCursor)
  | rotationRun (c : RotationRunCursor)
  | protocol (p : Protocol)
  deriving DecidableEq

/-- A page and its navigation: the previous cursor is the first item's key, the next one the
last's, each absent at its boundary. -/
structure Page (T : Type) where
  items : List T
  nextCursor : Option Cursor
  prevCursor : Option Cursor
  isFirst : Bool
  isLast : Bool
  deriving DecidableEq

/-- The empty page, at both boundaries at once. -/
def Page.empty {T : Type} : Page T := ⟨[], none, none, true, true⟩

inductive PageDirection where
  | next
  | prev
  deriving DecidableEq

inductive PagePosition where
  | first
  | last
  deriving DecidableEq

end YogSothoth
