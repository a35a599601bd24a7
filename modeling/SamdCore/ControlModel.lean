import SamdCore.MachineRuns

/-!
Endpoint 0 of `core/USB-CDC.c`, the countdown of `core/Reset.cpp` and the SysTick
handler of `core/delay.c`.

The values of the standard USB and CDC constants are defined in the USB submodule
and are a parameter; the request codes are distinct, being the cases of one
switch. `CDC_LineEncoding` is packed: seven bytes, the baud rate in the first
four. `banzai` does not return.
-/
namespace SamdCore
open MachineRuns

structure UsbConstants where
  reqtypeRecipientMask : UInt8
  reqtypeTypeMask : UInt8
  reqtypeClass : UInt8
  recipientInterface : UInt8
  cdcGetLineEncoding : UInt8
  cdcSetLineEncoding : UInt8
  cdcSetControlLineState : UInt8
  cdcSendBreak : UInt8
  distinct : [cdcGetLineEncoding, cdcSetLineEncoding, cdcSetControlLineState,
    cdcSendBreak].Nodup

namespace UsbConstants
variable (U : UsbConstants)

theorem get_ne_set : U.cdcGetLineEncoding ≠ U.cdcSetLineEncoding := fun h => by
  simpa [h] using U.distinct

theorem get_ne_lineState : U.cdcGetLineEncoding ≠ U.cdcSetControlLineState := fun h => by
  simpa [h] using U.distinct

theorem set_ne_lineState : U.cdcSetLineEncoding ≠ U.cdcSetControlLineState := fun h => by
  simpa [h] using U.distinct

end UsbConstants

def interfaceCdcControl : UInt8 := 0
def cdcLinestateDtrMask : UInt8 := 0x01

/-- `USB_SetupPacket` -/
structure SetupPacket where
  bmRequestType : UInt8
  bRequest : UInt8
  wValue : UInt16
  wIndex : UInt16
  wLength : UInt16
deriving DecidableEq

/-- `CDC_LineEncoding`, as the bytes it is made of. -/
structure LineEncoding where
  bytes : List UInt8
  size : bytes.length = 7
deriving DecidableEq

namespace LineEncoding

/-- The field `baud_rate`, little-endian. -/
def baudRate (e : LineEncoding) : Nat :=
  (e.bytes.take 4).foldr (fun byte high => byte.toNat + 256 * high) 0

/-- `memcpy` of the first `min(len, sizeof(_usbLineInfo))` bytes received. -/
def overlay (e : LineEncoding) (data : List UInt8) : LineEncoding where
  bytes := data.take (min data.length 7) ++ e.bytes.drop (min data.length 7)
  size := by
    rw [List.length_append, List.length_take, List.length_drop, e.size]
    omega

theorem overlay_bytes (e : LineEncoding) (data : List UInt8) :
    (e.overlay data).bytes = data.take 7 ++ e.bytes.drop data.length := by
  change data.take (min data.length 7) ++ e.bytes.drop (min data.length 7) = _
  by_cases short : data.length ≤ 7
  · rw [Nat.min_eq_left short, List.take_length, List.take_of_length_le short]
  · have long : 7 ≤ data.length := Nat.le_of_not_le short
    rw [Nat.min_eq_right long, List.drop_eq_nil_of_le (Nat.le_of_eq e.size),
      List.drop_eq_nil_of_le (e.size.le.trans long)]

theorem exists_bytes (e : LineEncoding) :
    ∃ a b c d rest, e.bytes = a :: b :: c :: d :: rest := by
  match h : e.bytes, e.size with
  | a :: b :: c :: d :: rest, _ => exact ⟨a, b, c, d, rest, rfl⟩

theorem baudRate_eq {e : LineEncoding} {a b c d : UInt8} {rest : List UInt8}
    (h : e.bytes = a :: b :: c :: d :: rest) :
    e.baudRate = a.toNat + 0x100 * b.toNat + 0x10000 * c.toNat + 0x1000000 * d.toNat := by
  rw [baudRate, h]
  simp only [List.take_succ_cons, List.take_zero, List.foldr_cons, List.foldr_nil]
  omega

theorem baudRate_eq_1200 (e : LineEncoding) :
    e.baudRate = 1200 ↔ e.bytes.take 4 = [0xB0, 0x04, 0x00, 0x00] := by
  obtain ⟨a, b, c, d, rest, bytes⟩ := e.exists_bytes
  have := a.toNat_lt
  have := b.toNat_lt
  have := c.toNat_lt
  have := d.toNat_lt
  rw [baudRate_eq bytes, bytes]
  simp only [List.take_succ_cons, List.take_zero, List.cons.injEq, and_true, ← UInt8.toNat_inj]
  change _ ↔ a.toNat = 0xB0 ∧ b.toNat = 0x04 ∧ c.toNat = 0 ∧ d.toNat = 0
  omega

end LineEncoding

/-- DTR is bit 0. -/
theorem dtr_clear_iff {line : UInt8} : line &&& cdcLinestateDtrMask = 0 ↔ line.toNat % 2 = 0 := by
  rw [← UInt8.toNat_inj, UInt8.toNat_and]
  exact Nat.and_one_is_mod line.toNat ▸ Iff.rfl

structure Control where
  usbLineInfo : LineEncoding
  usbPendingNewLineInfo : Bool
  usbCtrlLineInfo : UInt8
  ticks : Int
  ulTickCount : UInt32
  /-- `usb_setup`, once a setup packet has arrived. -/
  usbSetup : Option SetupPacket
  /-- `banzai` was called. -/
  halted : Bool

inductive ControlAction
  | ep0In (bytes : List UInt8)
  | ep0Out
  | ep0Stall
  | detectSerialReset (dataRate : Nat) (ctrlLineState : UInt8)
  | resetExternalChip
  | banzai
deriving DecidableEq

namespace Control

/-- The static variables at reset: `{115200, 0, 0, 8}` and no countdown. -/
def initial : Control where
  usbLineInfo := ⟨[0x00, 0xC2, 0x01, 0x00, 0x00, 0x00, 0x08], rfl⟩
  usbPendingNewLineInfo := false
  usbCtrlLineInfo := 0x00
  ticks := -1
  ulTickCount := 0
  usbSetup := none
  halted := false

def initiateReset (s : Control) (ticks : Int) : Control × List ControlAction :=
  ({ s with ticks }, [.resetExternalChip])

def cancelReset (s : Control) : Control × List ControlAction := ({ s with ticks := -1 }, [])

def tickReset (s : Control) : Control × List ControlAction :=
  if s.ticks = -1 then (s, [])
  else
    let s := { s with ticks := s.ticks - 1 }
    if s.ticks = 0 then ({ s with halted := true }, [.banzai]) else (s, [])

/-- `SysTick_Handler` -/
def sysTickHandler (s : Control) : Control × List ControlAction :=
  tickReset { s with ulTickCount := s.ulTickCount + 1 }

def detectSerialReset (s : Control) (dataRate : Nat) (ctrlLineState : UInt8) :
    Control × List ControlAction :=
  let ran :=
    if dataRate = 1200 ∧ ctrlLineState &&& cdcLinestateDtrMask = 0 then s.initiateReset 250
    else s.cancelReset
  (ran.1, .detectSerialReset dataRate ctrlLineState :: ran.2)

variable (U : UsbConstants)

def usbCbControlSetup (s : Control) (usbSetup : SetupPacket) : Control × List ControlAction :=
  let recipient := usbSetup.bmRequestType &&& U.reqtypeRecipientMask
  let reqType := usbSetup.bmRequestType &&& U.reqtypeTypeMask
  let interface := (usbSetup.wIndex &&& 0xff).toUInt8
  if reqType = U.reqtypeClass ∧ recipient = U.recipientInterface ∧
      interface = interfaceCdcControl then
    if usbSetup.bRequest = U.cdcGetLineEncoding then
      (s, [.ep0In s.usbLineInfo.bytes, .ep0Out])
    else if usbSetup.bRequest = U.cdcSetLineEncoding then
      let pending := if usbSetup.wLength ≠ 0 then true else s.usbPendingNewLineInfo
      ({ s with usbPendingNewLineInfo := pending }, [.ep0In [], .ep0Out])
    else if usbSetup.bRequest = U.cdcSetControlLineState then
      let s := { s with usbCtrlLineInfo := (usbSetup.wValue &&& 0xff).toUInt8 }
      let ran := s.detectSerialReset s.usbLineInfo.baudRate s.usbCtrlLineInfo
      (ran.1, ran.2 ++ [.ep0In [], .ep0Out])
    else if usbSetup.bRequest = U.cdcSendBreak then (s, [.ep0In [], .ep0Out])
    else (s, [.ep0Stall])
  else (s, [.ep0Stall])

/-- `data` is what `usb_ep_out_length(0)` bytes of `ep0_buf_out` hold. -/
def usbCbControlOutCompletion (s : Control) (data : List UInt8) :
    Control × List ControlAction :=
  if s.usbPendingNewLineInfo then
    let s := { s with usbLineInfo := s.usbLineInfo.overlay data }
    let ran := s.detectSerialReset s.usbLineInfo.baudRate s.usbCtrlLineInfo
    ({ ran.1 with usbPendingNewLineInfo := false }, ran.2)
  else (s, [])

end Control

inductive ControlEvent
  | setup (packet : SetupPacket)
  | outCompletion (data : List UInt8)
  | sysTick
deriving DecidableEq

abbrev ControlStep := Transition Control ControlEvent (List ControlAction)

/-- Packets of endpoint 0 hold 64 bytes, and nothing follows `banzai`. A setup packet that
the USB layer answers itself is one that the callback would only stall. -/
def controlMachine (U : UsbConstants) : Machine Control ControlEvent (List ControlAction) where
  step s event :=
    if s.halted then none
    else
      match event with
      | .setup packet => some ({ s with usbSetup := some packet }.usbCbControlSetup U packet)
      | .outCompletion data =>
          if data.length ≤ 64 then some (s.usbCbControlOutCompletion data) else none
      | .sysTick => some s.sysTickHandler

namespace Control
variable {U : UsbConstants}

/-- A class request to the CDC control interface. -/
def asks (U : UsbConstants) (packet : SetupPacket) (request : UInt8) : Bool :=
  packet.bmRequestType &&& U.reqtypeTypeMask == U.reqtypeClass &&
    packet.bmRequestType &&& U.reqtypeRecipientMask == U.recipientInterface &&
    (packet.wIndex &&& 0xff).toUInt8 == interfaceCdcControl && packet.bRequest == request

/-- What a step can be. -/
inductive Moves (U : UsbConstants) (s : Control) :
    ControlEvent → List ControlAction → Control → Prop
  | get {p} : asks U p U.cdcGetLineEncoding = true →
      Moves U s (.setup p) [.ep0In s.usbLineInfo.bytes, .ep0Out] { s with usbSetup := some p }
  | set {p} : asks U p U.cdcSetLineEncoding = true →
      Moves U s (.setup p) [.ep0In [], .ep0Out]
        { s with
          usbSetup := some p
          usbPendingNewLineInfo := if p.wLength ≠ 0 then true else s.usbPendingNewLineInfo }
  | lineState {p s₁} : asks U p U.cdcSetControlLineState = true →
      s₁ = { s with usbSetup := some p, usbCtrlLineInfo := (p.wValue &&& 0xff).toUInt8 } →
      Moves U s (.setup p)
        ((s₁.detectSerialReset s₁.usbLineInfo.baudRate s₁.usbCtrlLineInfo).2 ++
          [.ep0In [], .ep0Out])
        (s₁.detectSerialReset s₁.usbLineInfo.baudRate s₁.usbCtrlLineInfo).1
  | answered {p acts} : asks U p U.cdcGetLineEncoding = false →
      asks U p U.cdcSetLineEncoding = false → asks U p U.cdcSetControlLineState = false →
      acts = [.ep0In [], .ep0Out] ∨ acts = [.ep0Stall] →
      Moves U s (.setup p) acts { s with usbSetup := some p }
  | ignored {data} : s.usbPendingNewLineInfo = false → Moves U s (.outCompletion data) [] s
  | taken {data s₁} : s.usbPendingNewLineInfo = true → data.length ≤ 64 →
      s₁ = { s with usbLineInfo := s.usbLineInfo.overlay data } →
      Moves U s (.outCompletion data)
        (s₁.detectSerialReset s₁.usbLineInfo.baudRate s₁.usbCtrlLineInfo).2
        { (s₁.detectSerialReset s₁.usbLineInfo.baudRate s₁.usbCtrlLineInfo).1 with
          usbPendingNewLineInfo := false }
  | off : s.ticks = -1 → Moves U s .sysTick [] { s with ulTickCount := s.ulTickCount + 1 }
  | counts : s.ticks ≠ -1 → s.ticks ≠ 1 →
      Moves U s .sysTick [] { s with ulTickCount := s.ulTickCount + 1, ticks := s.ticks - 1 }
  | expires : s.ticks = 1 →
      Moves U s .sysTick [.banzai]
        { s with ulTickCount := s.ulTickCount + 1, ticks := 0, halted := true }

theorem detect_spec (s : Control) (rate : Nat) (line : UInt8) :
    (s.detectSerialReset rate line).1 =
        { s with ticks := if rate = 1200 ∧ line &&& cdcLinestateDtrMask = 0 then 250 else -1 } ∧
      .banzai ∉ (s.detectSerialReset rate line).2 := by
  simp only [detectSerialReset]
  by_cases touch : rate = 1200 ∧ line &&& cdcLinestateDtrMask = 0
  · rw [if_pos touch, if_pos touch]
    exact ⟨rfl, by simp [initiateReset]⟩
  · rw [if_neg touch, if_neg touch]
    exact ⟨rfl, by simp [cancelReset]⟩

theorem asks_iff {p : SetupPacket} {request : UInt8} : asks U p request = true ↔
    (p.bmRequestType &&& U.reqtypeTypeMask = U.reqtypeClass ∧
      p.bmRequestType &&& U.reqtypeRecipientMask = U.recipientInterface ∧
      (p.wIndex &&& 0xff).toUInt8 = interfaceCdcControl) ∧ p.bRequest = request := by
  simp [asks, and_assoc]

theorem asks_one {p : SetupPacket} {request other : UInt8} (h : p.bRequest = request)
    (ne : request ≠ other) : asks U p other = false := by
  simp [asks, h, ne]

theorem asks_other {p : SetupPacket} {request other : UInt8} (h : asks U p request = true)
    (ne : request ≠ other) : asks U p other = false := asks_one (asks_iff.mp h).2 ne

theorem moves_of_setup (s : Control) (p : SetupPacket) :
    Moves U s (.setup p) ({ s with usbSetup := some p }.usbCbControlSetup U p).2
      ({ s with usbSetup := some p }.usbCbControlSetup U p).1 := by
  simp only [usbCbControlSetup]
  by_cases cdc : p.bmRequestType &&& U.reqtypeTypeMask = U.reqtypeClass ∧
      p.bmRequestType &&& U.reqtypeRecipientMask = U.recipientInterface ∧
      (p.wIndex &&& 0xff).toUInt8 = interfaceCdcControl
  · rw [if_pos cdc]
    by_cases get : p.bRequest = U.cdcGetLineEncoding
    · rw [if_pos get]
      exact .get (asks_iff.mpr ⟨cdc, get⟩)
    rw [if_neg get]
    by_cases set : p.bRequest = U.cdcSetLineEncoding
    · rw [if_pos set]
      exact .set (asks_iff.mpr ⟨cdc, set⟩)
    rw [if_neg set]
    by_cases line : p.bRequest = U.cdcSetControlLineState
    · rw [if_pos line]
      exact .lineState (asks_iff.mpr ⟨cdc, line⟩) rfl
    rw [if_neg line]
    have other (request : UInt8) (ne : p.bRequest ≠ request) : asks U p request = false :=
      asks_one rfl ne
    by_cases sendBreak : p.bRequest = U.cdcSendBreak
    · rw [if_pos sendBreak]
      exact .answered (other _ get) (other _ set) (other _ line) (Or.inl rfl)
    · rw [if_neg sendBreak]
      exact .answered (other _ get) (other _ set) (other _ line) (Or.inr rfl)
  · rw [if_neg cdc]
    have other (request : UInt8) : asks U p request = false :=
      Bool.eq_false_iff.mpr fun h => cdc (asks_iff.mp h).1
    exact .answered (other _) (other _) (other _) (Or.inr rfl)

theorem moves_of_sysTick (s : Control) :
    Moves U s .sysTick s.sysTickHandler.2 s.sysTickHandler.1 := by
  simp only [sysTickHandler, tickReset]
  by_cases off : s.ticks = -1
  · rw [if_pos off]
    exact .off off
  · rw [if_neg off]
    by_cases last : s.ticks - 1 = 0
    · rw [if_pos last, last]
      exact .expires (by omega)
    · rw [if_neg last]
      exact .counts off (by omega)

theorem moves_of_outCompletion (s : Control) {data : List UInt8} (short : data.length ≤ 64) :
    Moves U s (.outCompletion data) (s.usbCbControlOutCompletion data).2
      (s.usbCbControlOutCompletion data).1 := by
  simp only [usbCbControlOutCompletion]
  by_cases pending : s.usbPendingNewLineInfo = true
  · rw [if_pos pending]
    exact .taken pending short rfl
  · rw [if_neg pending]
    exact .ignored (Bool.eq_false_iff.mpr pending)

theorem control_step {s s' : Control} {event : ControlEvent} {out : List ControlAction}
    (taken : (controlMachine U).step s event = some (s', out)) :
    s.halted = false ∧ Moves U s event out s' := by
  simp only [controlMachine] at taken
  split at taken
  · cases taken
  · rename_i running
    refine ⟨Bool.eq_false_iff.mpr running, ?_⟩
    cases event with
    | setup p =>
        obtain ⟨rfl, rfl⟩ := Prod.mk.inj (Option.some.inj taken)
        exact moves_of_setup s p
    | outCompletion data =>
        dsimp only at taken
        split at taken
        · rename_i short
          obtain ⟨rfl, rfl⟩ := Prod.mk.inj (Option.some.inj taken)
          exact moves_of_outCompletion s short
        · cases taken
    | sysTick =>
        obtain ⟨rfl, rfl⟩ := Prod.mk.inj (Option.some.inj taken)
        exact moves_of_sysTick s

/-- The values of the USB and CDC specifications. -/
def standard : UsbConstants where
  reqtypeRecipientMask := 0x1F
  reqtypeTypeMask := 0x60
  reqtypeClass := 0x20
  recipientInterface := 0x01
  cdcGetLineEncoding := 0x21
  cdcSetLineEncoding := 0x20
  cdcSetControlLineState := 0x22
  cdcSendBreak := 0x23
  distinct := by decide

end Control
end SamdCore
