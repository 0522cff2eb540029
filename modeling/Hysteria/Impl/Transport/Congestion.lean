import Hysteria.Impl.Error

/-!
# Brutal congestion control

`hysteria-transport`, `congestion.rs`: `Brutal`, and `AdaptiveCongestion`, which
has it take over from the configured controller once a bandwidth is set.
Instants and durations are numbers of nanoseconds; a `u64` or `u128` is a
number, cut off where the code saturates.
-/

namespace Hysteria.Impl

open Framework

abbrev sampleSlotCount : Nat := 5
def minSampleCount : Nat := 50
def minAckRateNumerator : Nat := 4
def minAckRateDenominator : Nat := 5
def congestionWindowMultiplier : Nat := 2
def initialWindow : Nat := 10240

/-- A result of saturating `u64` arithmetic, and `u64::try_from(..).unwrap_or(u64::MAX)`. -/
def saturating64 (n : Nat) : Nat := min n (2 ^ 64 - 1)

/-- A result of saturating `u128` arithmetic. -/
def saturating128 (n : Nat) : Nat := min n (2 ^ 128 - 1)

structure PacketInfo where
  timestamp : Option Nat := none
  ackCount : Nat := 0
  lossCount : Nat := 0
deriving DecidableEq

/-- `BrutalControl`, shared by all clones of a controller. -/
structure BrutalControl where
  enabled : Bool
  bandwidth : UInt64
  disableLossCompensation : Bool
deriving DecidableEq

structure Brutal where
  control : BrutalControl
  origin : Nat
  mtu : UInt16
  smoothedRtt : Nat
  slots : Vector PacketInfo sampleSlotCount
  ackRateNumerator : Nat
  ackRateDenominator : Nat

namespace Brutal

def new (control : BrutalControl) (origin : Nat) (mtu : UInt16) : Brutal where
  control
  origin
  mtu
  smoothedRtt := 0
  slots := Vector.replicate sampleSlotCount {}
  ackRateNumerator := 1
  ackRateDenominator := 1

/-- `now.saturating_duration_since(self.origin).as_secs()`. -/
def timestamp (b : Brutal) (now : Nat) : Nat := (now - b.origin) / 1000000000

/-- The acknowledgements and losses of the slots from `minimum` on. -/
def samples (b : Brutal) (minimum : Nat) : Nat × Nat :=
  (b.slots.toList.filter fun slot => slot.timestamp.any (minimum ≤ ·)).foldl
    (fun (ack, loss) slot => (saturating64 (ack + slot.ackCount), saturating64 (loss + slot.lossCount))) (0, 0)

def updateAckRate (b : Brutal) (timestamp : Nat) : Brutal :=
  if b.control.disableLossCompensation then { b with ackRateNumerator := 1, ackRateDenominator := 1 }
  else
    let (acknowledgements, losses) := b.samples (timestamp - sampleSlotCount)
    let samples := saturating64 (acknowledgements + losses)
    if samples < minSampleCount then { b with ackRateNumerator := 1, ackRateDenominator := 1 }
    else if saturating64 (acknowledgements * minAckRateDenominator) < saturating64 (samples * minAckRateNumerator) then
      { b with ackRateNumerator := minAckRateNumerator, ackRateDenominator := minAckRateDenominator }
    else { b with ackRateNumerator := acknowledgements, ackRateDenominator := samples }

/-- The slot of `timestamp` with new samples. -/
def recordSlot (info : PacketInfo) (timestamp acknowledgements losses : Nat) : PacketInfo :=
  if info.timestamp = some timestamp then
    { info with
      ackCount := saturating64 (info.ackCount + acknowledgements)
      lossCount := saturating64 (info.lossCount + losses) }
  else { timestamp := some timestamp, ackCount := acknowledgements, lossCount := losses }

def record (b : Brutal) (now acknowledgements losses : Nat) : Brutal :=
  let timestamp := b.timestamp now
  let slot := Fin.ofNat sampleSlotCount timestamp
  let info := recordSlot b.slots[slot] timestamp acknowledgements losses
  updateAckRate { b with slots := b.slots.set slot info } timestamp

def targetWindow (b : Brutal) : Nat :=
  if b.smoothedRtt = 0 then initialWindow
  else
    let numerator := saturating128 (saturating128 (saturating128 (b.control.bandwidth.toNat * b.smoothedRtt) *
      congestionWindowMultiplier) * b.ackRateDenominator)
    let denominator := saturating128 (1000000000 * max b.ackRateNumerator 1)
    max (saturating64 (numerator / denominator)) b.mtu.toNat

/-! ## `Controller for Brutal` -/

def onAck (b : Brutal) (now rtt : Nat) : Brutal := { b with smoothedRtt := rtt }.record now 1 0

def onCongestionEvent (b : Brutal) (now lostPackets : Nat) : Brutal :=
  if lostPackets > 0 then b.record now 0 lostPackets else b

def onMtuUpdate (b : Brutal) (newMtu : UInt16) : Brutal := { b with mtu := newMtu }

def window (b : Brutal) : Nat := b.targetWindow

def pacingBytesPerSecond (b : Brutal) : Nat :=
  saturating128 (b.control.bandwidth.toNat * b.ackRateDenominator) / max b.ackRateNumerator 1

/-- `metrics().pacing_rate`, in bits. -/
def pacingRate (b : Brutal) : Nat := saturating64 (saturating64 b.pacingBytesPerSecond * 8)

end Brutal

/-! ## The adaptive controller -/

/-- What a connection tells its controller, and `set_brutal_bandwidth`. -/
inductive CongestionEvent where
  | ack (now rtt : Nat)
  | congestion (now lostPackets : Nat)
  | mtuUpdate (newMtu : UInt16)
  | setBrutalBandwidth (bytesPerSecond : UInt64)
deriving DecidableEq

/-- `set_brutal_bandwidth`, as far as the controller is concerned. -/
def BrutalControl.setBandwidth (control : BrutalControl) (bytesPerSecond : UInt64) :
    Except TransportError BrutalControl :=
  if bytesPerSecond = 0 then .error (.configuration "Brutal bandwidth must be greater than zero")
  else .ok { control with bandwidth := bytesPerSecond, enabled := true }

/-- A bandwidth that is refused changes nothing. -/
def Brutal.setBandwidth (b : Brutal) (bytesPerSecond : UInt64) : Brutal :=
  match b.control.setBandwidth bytesPerSecond with
  | .ok control => { b with control }
  | .error _ => b

def Brutal.handle (b : Brutal) : CongestionEvent → Brutal
  | .ack now rtt => b.onAck now rtt
  | .congestion now lostPackets => b.onCongestionEvent now lostPackets
  | .mtuUpdate newMtu => b.onMtuUpdate newMtu
  | .setBrutalBandwidth bytesPerSecond => b.setBandwidth bytesPerSecond

/-- The configured controller. -/
structure Fallback (φ : Type) where
  handle : φ → CongestionEvent → φ
  window : φ → Nat

structure AdaptiveCongestion (φ : Type) where
  brutal : Brutal
  fallback : φ

namespace AdaptiveCongestion

variable {φ : Type} (controller : Fallback φ)

/-- `AdaptiveCongestionConfig::build`, with the controller that it has built. -/
def build (fallback : φ) (disableLossCompensation : Bool) (now : Nat) (currentMtu : UInt16) : AdaptiveCongestion φ where
  brutal := .new { enabled := false, bandwidth := 0, disableLossCompensation } now currentMtu
  fallback

def brutalEnabled (a : AdaptiveCongestion φ) : Bool := a.brutal.control.enabled

def handle (a : AdaptiveCongestion φ) : CongestionEvent → AdaptiveCongestion φ
  | .mtuUpdate newMtu =>
    { brutal := a.brutal.onMtuUpdate newMtu, fallback := controller.handle a.fallback (.mtuUpdate newMtu) }
  | .setBrutalBandwidth bytesPerSecond => { a with brutal := a.brutal.setBandwidth bytesPerSecond }
  | event =>
    if a.brutalEnabled then { a with brutal := a.brutal.handle event }
    else { a with fallback := controller.handle a.fallback event }

def window (a : AdaptiveCongestion φ) : Nat :=
  if a.brutalEnabled then a.brutal.window else controller.window a.fallback

def brutalBandwidth (a : AdaptiveCongestion φ) : Option UInt64 :=
  if a.brutalEnabled then some a.brutal.control.bandwidth else none

end AdaptiveCongestion

end Hysteria.Impl
