import Asm8080.Text.Case

/-!
# Mnemonics

The names of the documented 8080 instructions.

## Main definitions

* `Asm8080.Mnemonic` — one constructor for each mnemonic.
* `Asm8080.Mnemonic.name`, `Asm8080.Mnemonic.ofName?` — its name in upper case, and back.
-/

set_option autoImplicit false

namespace Asm8080

/-- The mnemonics, grouped by operands: none, an address or word, a byte, and registers. -/
inductive Mnemonic where
  | nop | rlc | rrc | ral | rar | daa | cma | stc | cmc | hlt
  | rnz | rz | ret | rnc | rc | rpo | rpe | rp | rm
  | xthl | pchl | xchg | sphl | di | ei
  | shld | lhld | sta | lda
  | jnz | jmp | jz | jnc | jc | jpo | jpe | jp | jm
  | cnz | cz | call | cnc | cc | cpo | cpe | cp | cm
  | adi | aci | sui | sbi | ani | xri | ori | cpi | outPort | inPort
  | mov | mvi | inr | dcr | add | adc | sub | sbb | ana | xra | ora | cmp
  | lxi | inx | dad | dcx | pop | push | stax | ldax | rst
deriving DecidableEq

namespace Mnemonic

/-- Every mnemonic. -/
def all : List Mnemonic := [
  nop, rlc, rrc, ral, rar, daa, cma, stc, cmc, hlt,
  rnz, rz, ret, rnc, rc, rpo, rpe, rp, rm,
  xthl, pchl, xchg, sphl, di, ei,
  shld, lhld, sta, lda,
  jnz, jmp, jz, jnc, jc, jpo, jpe, jp, jm,
  cnz, cz, call, cnc, cc, cpo, cpe, cp, cm,
  adi, aci, sui, sbi, ani, xri, ori, cpi, outPort, inPort,
  mov, mvi, inr, dcr, add, adc, sub, sbb, ana, xra, ora, cmp,
  lxi, inx, dad, dcx, pop, push, stax, ldax, rst]

/-- The name of a mnemonic, in upper case. -/
def name : Mnemonic → String
  | nop => "NOP" | rlc => "RLC" | rrc => "RRC" | ral => "RAL" | rar => "RAR"
  | daa => "DAA" | cma => "CMA" | stc => "STC" | cmc => "CMC" | hlt => "HLT"
  | rnz => "RNZ" | rz => "RZ" | ret => "RET" | rnc => "RNC" | rc => "RC"
  | rpo => "RPO" | rpe => "RPE" | rp => "RP" | rm => "RM"
  | xthl => "XTHL" | pchl => "PCHL" | xchg => "XCHG" | sphl => "SPHL"
  | di => "DI" | ei => "EI"
  | shld => "SHLD" | lhld => "LHLD" | sta => "STA" | lda => "LDA"
  | jnz => "JNZ" | jmp => "JMP" | jz => "JZ" | jnc => "JNC" | jc => "JC"
  | jpo => "JPO" | jpe => "JPE" | jp => "JP" | jm => "JM"
  | cnz => "CNZ" | cz => "CZ" | call => "CALL" | cnc => "CNC" | cc => "CC"
  | cpo => "CPO" | cpe => "CPE" | cp => "CP" | cm => "CM"
  | adi => "ADI" | aci => "ACI" | sui => "SUI" | sbi => "SBI"
  | ani => "ANI" | xri => "XRI" | ori => "ORI" | cpi => "CPI"
  | outPort => "OUT" | inPort => "IN"
  | mov => "MOV" | mvi => "MVI" | inr => "INR" | dcr => "DCR"
  | add => "ADD" | adc => "ADC" | sub => "SUB" | sbb => "SBB"
  | ana => "ANA" | xra => "XRA" | ora => "ORA" | cmp => "CMP"
  | lxi => "LXI" | inx => "INX" | dad => "DAD" | dcx => "DCX"
  | pop => "POP" | push => "PUSH" | stax => "STAX" | ldax => "LDAX" | rst => "RST"

/-- The mnemonic with an upper case name. -/
def ofName? (s : String) : Option Mnemonic := all.find? (fun m => m.name == s)

end Mnemonic

end Asm8080
