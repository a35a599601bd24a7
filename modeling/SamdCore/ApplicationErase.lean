import SamdCore.LinkerScripts

/-!
`banzai` of `core/Reset.cpp`, on the programs that the linker scripts lay out.

The controller of the flash is not part of the sources: it is a parameter, with what
its data sheet says of the registers that `banzai` uses. Interrupts are disabled, so
nothing else uses them. A program behind the bootloader loses the row that it starts
with, and one without a bootloader is only restarted.
-/
namespace SamdCore
open LocationCounter WhileLoops

/-- The erasable unit of the flash, in bytes. -/
def rowSize : Nat := 256

/-- A row that is erased, if it is not protected. -/
def eraseRow (isProtected : Nat → Bool) (row : Nat) (flash : Nat → UInt8) : Nat → UInt8 :=
  fun a => if a / rowSize = row ∧ isProtected row = false then 0xFF else flash a

/-- `NVMCTRL` -/
structure NvmController (σ : Type) where
  nvmctrlIntflagReady : UInt8
  nvmctrlStatusMask : UInt16
  nvmctrlCtrlaCmdEr : UInt16
  nvmctrlCtrlaCmdexKey : UInt16
  intflag : σ → UInt8
  status : σ → UInt16
  addr : σ → UInt32
  setStatus : σ → UInt16 → σ
  setAddr : σ → UInt32 → σ
  setCtrla : σ → UInt16 → σ
  /-- What happens between two looks at `INTFLAG`. -/
  wait : σ → σ
  /-- What the flash holds once the command at work is done. -/
  flash : σ → Nat → UInt8
  /-- The rows that the fuses protect. -/
  isProtected : Nat → Bool
  becomesReady : ∀ n, ∃ k, intflag (wait^[k] n) &&& nvmctrlIntflagReady ≠ 0
  flash_wait : ∀ n, flash (wait n) = flash n
  intflag_setStatus : ∀ n value, intflag (setStatus n value) = intflag n
  flash_setStatus : ∀ n value, flash (setStatus n value) = flash n
  intflag_setAddr : ∀ n value, intflag (setAddr n value) = intflag n
  flash_setAddr : ∀ n value, flash (setAddr n value) = flash n
  /-- The register has 22 bits. -/
  addr_setAddr : ∀ n value, value.toNat < 2 ^ 22 → addr (setAddr n value) = value
  /-- It counts in units of 16 bits. -/
  flash_erase : ∀ n, intflag n &&& nvmctrlIntflagReady ≠ 0 →
    flash (setCtrla n (nvmctrlCtrlaCmdEr ||| nvmctrlCtrlaCmdexKey)) =
      eraseRow isProtected (2 * (addr n).toNat / rowSize) (flash n)

namespace NvmController
variable {σ : Type} (C : NvmController σ)

def nvmReady (n : σ) : Bool := C.intflag n &&& C.nvmctrlIntflagReady != 0

/-- `APP_START` -/
def appStart (textStart : UInt32) : UInt32 := textStart + 4

/-- The controller as `NVIC_SystemReset` finds it. `&NVM_MEMORY[i]` is the address of the
16-bit unit `i`. -/
def banzai (textStart : UInt32) (fuel : Nat) (n : σ) : Option σ :=
  if appStart textStart < 0x200 + 4 then some n
  else
    (whileLoop (fun n => !C.nvmReady n) C.wait fuel n).bind fun n =>
      let n := C.setStatus n (C.status n ||| C.nvmctrlStatusMask)
      let n := C.setAddr n (2 * (appStart textStart / 4))
      let n := C.setCtrla n (C.nvmctrlCtrlaCmdEr ||| C.nvmctrlCtrlaCmdexKey)
      whileLoop (fun n => !C.nvmReady n) C.wait fuel n

variable {C}

/-- Polling ends, and only lets time pass. -/
theorem polled (n : σ) : ∃ n' k, C.nvmReady n' = true ∧ C.flash n' = C.flash n ∧
    ∀ fuel, k < fuel → whileLoop (fun n => !C.nvmReady n) C.wait fuel n = some n' := by
  have stops : ∃ k, (!C.nvmReady (C.wait^[k] n)) = false := by
    obtain ⟨k, ready⟩ := C.becomesReady n
    exact ⟨k, by rwa [Bool.not_eq_false', nvmReady, bne_iff_ne]⟩
  obtain ⟨n', k, stop, ends⟩ :=
    @whileLoop_eventually σ (fun n => !C.nvmReady n) C.wait n stops
  obtain ⟨same, -⟩ := whileLoop_invariant (P := fun m => C.flash m = C.flash n) rfl
    (fun m same _ => (C.flash_wait m).trans same) (ends (k + 1) (Nat.lt_succ_self k))
  exact ⟨n', k, by rwa [Bool.not_eq_false'] at stop, same, ends⟩

/-- The unit that is written to `ADDR` is the one that `APP_START` lies in. -/
theorem toNat_unit {textStart : UInt32} (low : textStart.toNat ≤ 0x40000)
    (word : textStart.toNat % 4 = 0) :
    (2 * (appStart textStart / 4)).toNat = (textStart.toNat + 4) / 2 := by
  have start : (appStart textStart).toNat = textStart.toNat + 4 := by
    rw [appStart, UInt32.toNat_add, show UInt32.toNat 4 = 4 from rfl]
    omega
  rw [UInt32.toNat_mul, UInt32.toNat_div, start, show UInt32.toNat 4 = 4 from rfl,
    show UInt32.toNat 2 = 2 from rfl]
  omega

/-- `banzai` ends, with the row of `APP_START` erased unless that is too low. -/
theorem banzai_spec {textStart : UInt32} (low : textStart.toNat ≤ 0x40000)
    (word : textStart.toNat % 4 = 0) (n : σ) :
    ∃ n' bound, (∀ fuel, bound < fuel → C.banzai textStart fuel n = some n') ∧
      C.flash n' = if textStart.toNat < 0x200 then C.flash n
        else eraseRow C.isProtected ((textStart.toNat + 4) / rowSize) (C.flash n) := by
  have guard : appStart textStart < 0x200 + 4 ↔ textStart.toNat < 0x200 := by
    rw [UInt32.lt_iff_toNat_lt, appStart, UInt32.toNat_add, show UInt32.toNat 4 = 4 from rfl,
      show UInt32.toNat (0x200 + 4) = 0x204 from rfl]
    omega
  by_cases short : textStart.toNat < 0x200
  · refine ⟨n, 0, fun fuel _ => ?_, (if_pos short).symm⟩
    rw [banzai, if_pos (guard.mpr short)]
  · obtain ⟨n₁, k₁, ready, same₁, ends₁⟩ := C.polled n
    let n₂ := C.setStatus n₁ (C.status n₁ ||| C.nvmctrlStatusMask)
    let n₃ := C.setAddr n₂ (2 * (appStart textStart / 4))
    obtain ⟨n₄, k₂, -, same₂, ends₂⟩ :=
      C.polled (C.setCtrla n₃ (C.nvmctrlCtrlaCmdEr ||| C.nvmctrlCtrlaCmdexKey))
    refine ⟨n₄, max k₁ k₂, fun fuel enough => ?_, ?_⟩
    · rw [banzai, if_neg (fun less => short (guard.mp less)),
        ends₁ fuel (Nat.lt_of_le_of_lt (Nat.le_max_left ..) enough)]
      exact ends₂ fuel (Nat.lt_of_le_of_lt (Nat.le_max_right ..) enough)
    · have idle : C.intflag n₃ &&& C.nvmctrlIntflagReady ≠ 0 := by
        rw [C.intflag_setAddr, C.intflag_setStatus]
        exact bne_iff_ne.mp ready
      have unit := toNat_unit low word
      have fits : (2 * (appStart textStart / 4)).toNat < 2 ^ 22 := by
        rw [unit]
        omega
      have byte : 2 * ((textStart.toNat + 4) / 2) = textStart.toNat + 4 := by omega
      rw [if_neg short, same₂, C.flash_erase n₃ idle, C.addr_setAddr _ _ fits, unit, byte,
        C.flash_setAddr, C.flash_setStatus, same₁]

end NvmController

namespace Program
variable {P : Program} {S : Script} {symbols : SymbolTable}
variable {σ : Type}

/-- `.text` starts the flash, aligned to its strictest section. -/
def textStart (P : Program) (S : Script) : Nat :=
  alignUp S.flashOrigin (maxAlign (S.textSection P))

theorem boot_valid (S : Script) : ∀ x ∈ S.boot P, x.Valid := by
  cases S with
  | withBootloader => simp [Script.boot, Statement.Valid]
  | withoutBootloader => exact List.forall_mem_nil _

theorem textSection_valid : ∀ x ∈ S.textSection P, x.Valid := by
  rw [Script.textSection, List.forall_mem_cons, List.forall_mem_append]
  exact ⟨trivial, boot_valid S, by simp [Statement.Valid]⟩

theorem textStart_eq : (P.heapPlaced S).symbols .textStart = some (P.textStart S) := by
  have unset : ∀ x ∈ S.boot P ++ [.input P.isrVector, .input P.text, .input P.init,
      .input P.fini, .input P.ctors, .input P.dtors, .input P.rodata, .input P.ehFrame],
      x ≠ .symbol .textStart := by
    rw [List.forall_mem_append]
    refine ⟨?_, by simp⟩
    cases S with
    | withBootloader => simp [Script.boot]
    | withoutBootloader => exact List.forall_mem_nil _
  rw [heapPlaced_symbols (by simp [heapSection]), bssPlaced_symbols (by simp [bssSection]),
    dataPlaced, outputSection_symbols _ (by simp [dataSection])]
  exact run_symbol _ [] unset

theorem textStart_le : P.textStart S ≤ (P.flash S).dot := by
  have text := le_outputSection ⟨S.flashOrigin, fun _ => none⟩ (P.textSection_valid (S := S))
  have input (c : Counter Symbol) (sections : List InputSection) :
      c.dot ≤ (outputSection c [.input sections]).dot :=
    Nat.le_trans (le_alignUp _ (maxAlign_pos _)) (le_outputSection c (by simp [Statement.Valid]))
  exact Nat.le_trans text (Nat.le_trans (input _ _) (Nat.le_trans (input _ _) (input _ _)))

/-- Behind the bootloader `.text` starts with a row, at least. Without it, it starts the flash. -/
theorem textStart_row : (S = .withBootloader → 0x2000 ≤ P.textStart S ∧ rowSize ∣ P.textStart S) ∧
    (S = .withoutBootloader → P.textStart S = 0) := by
  constructor
  · rintro rfl
    have whole : 2 ^ 8 ∣ Script.flashOrigin .withBootloader := by decide
    exact ⟨le_alignUp _ (maxAlign_pos _), alignUp_keeps (maxAlign_power _) whole⟩
  · rintro rfl
    exact alignUp_of_dvd (maxAlign_pos _) (Nat.dvd_zero _)

/-- What `banzai` leaves of the flash, for a program whose `.text` is at `start`. -/
structure Leaves (S : Script) (isProtected : Nat → Bool) (start : Nat)
    (before after : Nat → UInt8) : Prop where
  below : ∀ a, a < start → after a = before a
  row : ∀ a, start ≤ a → a < start + rowSize →
    after a = if S = .withBootloader ∧ isProtected (start / rowSize) = false then 0xFF else before a
  above : ∀ a, start + rowSize ≤ a → after a = before a

theorem leaves_of_erase {isProtected : Nat → Bool} {before : Nat → UInt8} :
    Leaves S isProtected (P.textStart S) before (if P.textStart S < 0x200 then before
      else eraseRow isProtected ((P.textStart S + 4) / rowSize) before) := by
  obtain ⟨bootloader, alone⟩ := P.textStart_row (S := S)
  cases S with
  | withoutBootloader =>
      rw [alone rfl, if_pos (by decide)]
      exact ⟨fun _ _ => rfl, fun _ _ _ => rfl, fun _ _ => rfl⟩
  | withBootloader =>
      obtain ⟨high, row, start⟩ := bootloader rfl
      simp only [rowSize] at start
      have origin : Script.flashOrigin .withBootloader = 0x2000 := rfl
      have here : P.textStart .withBootloader / 256 = row := by omega
      have named : (P.textStart .withBootloader + 4) / 256 = row := by omega
      rw [if_neg (by omega)]
      simp only [rowSize, named]
      refine ⟨fun a below => ?_, fun a from' upTo => ?_, fun a above => ?_⟩
      · exact if_neg fun erased => by simp only [rowSize] at erased; omega
      · simp only [rowSize] at upTo ⊢
        have inRow : a / 256 = row := by omega
        rw [eraseRow, rowSize, inRow, here]
        simp
      · exact if_neg fun erased => by simp only [rowSize] at above erased; omega

/-- Whatever the flash controller was doing, `banzai` ends. A program that was linked behind
the bootloader has lost the row it starts with, and nothing else has changed. -/
theorem banzai_erases (linked : P.link S = some symbols) (C : NvmController σ) (n : σ) :
    ∃ start, symbols .textStart = some start ∧
      ∃ n' bound, (∀ fuel, bound < fuel → C.banzai (UInt32.ofNat start) fuel n = some n') ∧
        Leaves S C.isProtected start (C.flash n) (C.flash n') := by
  obtain ⟨order, same⟩ := ordered_of_link linked
  have low := Nat.le_trans P.textStart_le order.flash
  have start : (UInt32.ofNat (P.textStart S)).toNat = P.textStart S :=
    UInt32.toNat_ofNat_of_lt' (Nat.lt_of_le_of_lt low (by decide))
  have word : P.textStart S % 4 = 0 := by
    obtain ⟨bootloader, alone⟩ := P.textStart_row (S := S)
    cases S with
    | withBootloader =>
        have four : 4 ∣ rowSize := by decide
        exact Nat.mod_eq_zero_of_dvd (Nat.dvd_trans four (bootloader rfl).2)
    | withoutBootloader => rw [alone rfl]
  refine ⟨P.textStart S, (same _ (by decide)).trans P.textStart_eq, ?_⟩
  have below : (UInt32.ofNat (P.textStart S)).toNat ≤ 0x40000 := by rwa [start]
  obtain ⟨n', bound, ends, left⟩ := C.banzai_spec below (by rwa [start]) n
  rw [start] at left
  exact ⟨n', bound, ends, left ▸ leaves_of_erase⟩

end Program

/-- A controller that is busy for some looks at `INTFLAG` after a command. -/
structure Nvm where
  busy : Nat
  addr : UInt32
  flash : Nat → UInt8

namespace Nvm

def wait (n : Nvm) : Nvm := { n with busy := n.busy - 1 }

theorem busy_wait (n : Nvm) (k : Nat) : (wait^[k] n).busy = n.busy - k := by
  induction k generalizing n with
  | zero => rfl
  | succ k ih =>
      rw [Function.iterate_succ_apply, ih]
      exact Nat.sub_sub n.busy 1 k |>.trans (congrArg _ (Nat.add_comm 1 k))

def controller : NvmController Nvm where
  nvmctrlIntflagReady := 1
  nvmctrlStatusMask := 0x11F
  nvmctrlCtrlaCmdEr := 0x02
  nvmctrlCtrlaCmdexKey := 0xA500
  intflag n := if n.busy = 0 then 1 else 0
  status _ := 0
  addr := addr
  setStatus n _ := n
  setAddr n value := { n with addr := value &&& 0x3FFFFF }
  setCtrla n value :=
    if n.busy = 0 ∧ value = 0xA502 then
      { n with busy := 6, flash := eraseRow (fun _ => false) (2 * n.addr.toNat / rowSize) n.flash }
    else n
  wait := wait
  flash := flash
  isProtected _ := false
  becomesReady n := by
    refine ⟨n.busy, ?_⟩
    rw [busy_wait, Nat.sub_self, if_pos rfl]
    decide
  flash_wait _ := rfl
  intflag_setStatus _ _ := rfl
  flash_setStatus _ _ := rfl
  intflag_setAddr _ _ := rfl
  flash_setAddr _ _ := rfl
  addr_setAddr n value fits := by
    apply UInt32.toNat_inj.mp
    rw [UInt32.toNat_and]
    exact Nat.and_two_pow_sub_one_of_lt_two_pow (n := 22) fits
  flash_erase n ready := by
    have idle : n.busy = 0 := by
      by_contra busy
      rw [if_neg busy] at ready
      exact ready rfl
    rw [if_pos ⟨idle, rfl⟩]

end Nvm

theorem Program.banzai_erases_noData :
    ∃ linked : (noData.link .withBootloader).isSome, ∃ start,
      (noData.link .withBootloader).get linked .textStart = some start ∧
      ∃ n' bound, (∀ fuel, bound < fuel →
          Nvm.controller.banzai (UInt32.ofNat start) fuel ⟨3, 0, fun _ => 0x42⟩ = some n') ∧
        Leaves .withBootloader (fun _ => false) start (fun _ => 0x42) n'.flash :=
  ⟨by decide, banzai_erases (Option.some_get _).symm Nvm.controller ⟨3, 0, fun _ => 0x42⟩⟩

end SamdCore
