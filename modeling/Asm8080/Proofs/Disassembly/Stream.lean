import Asm8080.Proofs.Disassembly.Partition
import Asm8080.Proofs.Disassembly.Scan

/-!
# Records one after another

A disassembly takes one record after another off the front of the data. How far it goes is another
matter: a limit on the number of records and a strict disassembler end it early, and neither changes
a record that comes before the end. Nor does data that is added after the last record, unless that
record belongs to an instruction that the data cut short.

## Main definitions

* `Asm8080.Disassembler.next` — the next record.
* `Asm8080.Disassembler.Yields` — the records of some data, all of them.
* `Asm8080.Disassembler.deliver` — what is left of the records if the disassembler is strict.

## Main results

* `Asm8080.Disassembler.Yields.scan_eq` — how far the scan goes through the records.
* `Asm8080.Disassembler.Yields.append` — records of two pieces of data, one after the other.
* `Asm8080.Disassembler.disassemble_beginning` — strict and limited disassemblies are beginnings of
  the lenient one.
* `Asm8080.Disassembler.disassemble_append` — data is disassembled piece by piece.
-/

set_option autoImplicit false

namespace Asm8080

namespace Disassembler

variable {d : Disassembler} {address : Nat} {cut : Bool} {byte : UInt8} {data rest : List UInt8}
  {r : Record} {rs : List Record}

/-! ## The next record -/

/-- The disassembler that makes a record of every byte. -/
def lenient (d : Disassembler) : Disassembler := { d with strict := false }

/-- The next record, from a byte and the data after it. -/
def next (d : Disassembler) (address : Int) (cut : Bool) (byte : UInt8) (rest : List UInt8) :
    Except DecodeError Record :=
  if cut then d.refuse address byte .operand else d.decodeFront address byte rest

/-- What a disassembler does with a record: a strict one reports an error. -/
def judge (d : Disassembler) (r : Record) : Except DecodeError Record :=
  if d.strict then r.error?.elim (.ok r) .error else .ok r

/-- A record that is not judged an error is left as it is. -/
lemma eq_of_judge {r' : Record} (h : d.judge r = .ok r') : r' = r := by
  unfold judge at h
  cases hs : d.strict <;> cases he : r.error? <;> simp [hs, he] at h <;> exact h.symm

/-- The record of a byte that begins no instruction. -/
lemma eq_of_refuse {problem : Problem} (h : d.refuse address byte problem = .ok r) :
    r = ⟨address, byte, .data problem, [byte]⟩ := by
  unfold refuse at h
  split at h
  · cases h
  · exact (Except.ok.inj h).symm

/-- A byte that begins no instruction is judged by the record that the lenient disassembler makes of
it. -/
lemma refuse_eq_judge (d : Disassembler) (address : Int) (byte : UInt8) (problem : Problem) :
    d.refuse address byte problem = d.judge ⟨address, byte, .data problem, [byte]⟩ := by
  simp only [refuse, judge, Record.error?, Option.elim_some]

/-- **The next record** is that of the lenient disassembler, unless it is an error and the
disassembler is strict. -/
lemma next_eq_judge (h : d.lenient.next address cut byte rest = .ok r) :
    d.next address cut byte rest = d.judge r := by
  have hrefuse : ∀ problem, d.lenient.refuse address byte problem = .ok r →
      d.refuse address byte problem = d.judge r := by
    intro problem hr
    rw [eq_of_refuse hr]
    exact refuse_eq_judge d address byte problem
  unfold next decodeFront at h ⊢
  cases cut with
  | true => exact hrefuse .operand h
  | false =>
    simp only [Bool.false_eq_true, if_false] at h ⊢
    rcases hdecode : Encoding.decode? byte with _ | ⟨e, vector⟩
    · simp only [hdecode] at h ⊢
      exact hrefuse .undocumented h
    · cases harguments : readArguments? e vector rest with
      | none =>
        simp only [hdecode, harguments] at h ⊢
        exact hrefuse _ h
      | some arguments =>
        simp only [hdecode, harguments] at h ⊢
        cases h
        simp only [judge, accept, Record.error?, Option.elim_none, ite_self]
        rfl

/-! ## All records -/

/-- The records of data at an address, from the first byte to the last. -/
inductive Yields (d : Disassembler) : Nat → Bool → List UInt8 → List Record → Prop
  | nil {address : Nat} {cut : Bool} : Yields d address cut [] []
  | cons {address : Nat} {cut : Bool} {byte : UInt8} {rest : List UInt8} {r : Record}
      {rs : List Record} (hnext : d.next address cut byte rest = .ok r)
      (hrest : Yields d (address + r.size) (cut || isCut r) (rest.drop (r.size - 1)) rs) :
      Yields d address cut (byte :: rest) (r :: rs)

/-- A lenient disassembler makes records of all data. -/
lemma exists_yields (hd : d.strict = false) (address : Nat) (cut : Bool) (data : List UInt8) :
    ∃ rs, d.Yields address cut data rs := by
  induction hn : data.length using Nat.strongRecOn generalizing data address cut with
  | ind n ih =>
    cases data with
    | nil => exact ⟨[], .nil⟩
    | cons byte rest =>
      obtain ⟨r, hr, -, -⟩ := exists_next hd cut address byte rest
      have hlt : (rest.drop (r.size - 1)).length < n := by
        rw [← hn, List.length_cons, List.length_drop]
        omega
      obtain ⟨rs, hrs⟩ := ih _ hlt (address + r.size) (cut || isCut r) (rest.drop (r.size - 1)) rfl
      exact ⟨r :: rs, .cons hr hrs⟩

/-! ## How far the scan goes -/

/-- The first records, as many as a count allows. -/
def limited (count : Option Int) (rs : List Record) : List Record :=
  count.elim rs fun k => rs.take (max k 0).toNat

/-- What a disassembler delivers of records: all of them, or those before the first error and that
error, if it is strict. -/
def deliver (d : Disassembler) (rs : List Record) : List Record × Option DecodeError :=
  if d.strict then (rs.takeWhile fun r => r.error?.isNone, rs.findSome? Record.error?)
  else (rs, none)

/-- No records are delivered as no records. -/
lemma deliver_nil (d : Disassembler) : d.deliver [] = ([], none) := by
  unfold deliver
  split <;> rfl

/-- A record that is judged an error ends the delivery; another one comes before the rest. -/
lemma deliver_cons (d : Disassembler) (r : Record) (rs : List Record) :
    d.deliver (r :: rs) =
      match d.judge r with
      | .ok r => (r :: (d.deliver rs).1, (d.deliver rs).2)
      | .error e => ([], some e) := by
  unfold deliver judge
  cases d.strict with
  | false => rfl
  | true =>
    cases herror : r.error? with
    | none => simp [herror]
    | some e => simp [herror]

/-- Once a count is used up no more records are allowed. -/
lemma limited_of_le {count : Option Int} {n : Nat} (h : (count.any fun k => k ≤ (n : Int)) = true)
    (rs : List Record) : limited (count.map (· - (n : Int))) rs = [] := by
  cases count with
  | none => cases h
  | some k =>
    have hle : k ≤ n := by simpa using h
    have hzero : (max (k - n) 0).toNat = 0 := by omega
    rw [Option.map_some, limited, Option.elim_some, hzero, List.take_zero]

/-- Until a count is used up, one more record is allowed. -/
lemma limited_cons {count : Option Int} {n : Nat}
    (h : ¬(count.any fun k => k ≤ (n : Int)) = true) (r : Record) (rs : List Record) :
    limited (count.map (· - (n : Int))) (r :: rs) =
      r :: limited (count.map (· - ((n + 1 : Nat) : Int))) rs := by
  cases count with
  | none => rfl
  | some k =>
    have hlt : ¬k ≤ n := by simpa using h
    have hsucc : (max (k - n) 0).toNat = (max (k - ((n + 1 : Nat) : Int)) 0).toNat + 1 := by omega
    simp only [Option.map_some, limited, Option.elim_some, hsucc, List.take_succ_cons]

/-- **How far the scan goes** through the records: as far as the count allows, and up to the first
error if the disassembler is strict.

**Proof sketch.** Induction on the records. The scan takes the next record as the disassembler
judges it, and goes on with one record less to its count. -/
lemma Yields.scan_eq (h : d.lenient.Yields address cut data rs) (count : Option Int)
    (done : Array Record) :
    d.scan count done address cut data =
      (done.toList ++ (d.deliver (limited (count.map (· - (done.size : Int))) rs)).1,
        (d.deliver (limited (count.map (· - (done.size : Int))) rs)).2) := by
  induction h generalizing done with
  | nil =>
    have hnil : ∀ count, limited count [] = [] := by
      intro count
      cases count <;> simp [limited]
    rw [scan, hnil, deliver_nil, List.append_nil]
  | @cons address cut byte rest r rs hnext _ ih =>
    rw [scan]
    by_cases hstop : (count.any fun k => k ≤ (done.size : Int)) = true
    · rw [if_pos hstop, limited_of_le hstop, deliver_nil, List.append_nil]
    · rw [if_neg hstop, limited_cons hstop, deliver_cons]
      have hjudge : (if cut then d.refuse address byte .operand
          else d.decodeFront address byte rest) = d.judge r := next_eq_judge hnext
      simp only [hjudge]
      cases hr : d.judge r with
      | error e => simp
      | ok r' =>
        obtain rfl := eq_of_judge hr
        simp only [ih, Array.size_push, Array.toList_push, List.append_assoc, List.singleton_append]

/-- **How far a disassembly goes** through the records of the data that is in the address space. -/
lemma disassemble_of_yields {start : Nat} (hstart : start ≤ 0xFFFF)
    (h : d.lenient.Yields start false (data.take (0x10000 - start)) rs) (count : Option Int) :
    (d.disassemble data start count).records = (d.deliver (limited count rs)).1 ∧
      (d.disassemble data start count).fault =
        (d.deliver (limited count rs)).2.map .undecodable := by
  have hrange : 0 ≤ (start : Int) ∧ (start : Int) < 0x10000 := by omega
  have hcount : count.map (· - ((#[] : Array Record).size : Int)) = count := by
    cases count <;> simp
  unfold disassemble
  simp only [hrange, and_self, if_true, Int.toNat_natCast, h.scan_eq, hcount]
  exact ⟨List.nil_append _, trivial⟩

/-- **Strict and limited disassemblies are beginnings of the lenient one.** Take all records of the
lenient disassembly of some data. With a count, the lenient disassembler gives the first of them, as
many as the count says, and none if it is negative. The strict one gives those of them that come
before the first error, and fails with the very error of that record; if there is none, it gives all
of them and does not fail.

**Proof sketch.** The two disassemblers take the same records off the data until one is an error
(`next_eq_judge`), so that the scan goes through the same records in both (`Yields.scan_eq`). -/
theorem disassemble_beginning (d : Disassembler) (data : List UInt8) {start : Nat}
    (hstart : start ≤ 0xFFFF) (count : Option Int) :
    let lenient : Disassembler := { d with strict := false }
    let strict : Disassembler := { d with strict := true }
    let all := (lenient.disassemble data start none).records
    let first := count.elim all fun k => all.take (max k 0).toNat
    (lenient.disassemble data start count).records = first ∧
      (lenient.disassemble data start count).fault = none ∧
      (strict.disassemble data start count).records =
        first.takeWhile (fun r => r.error?.isNone) ∧
      (strict.disassemble data start count).fault =
        (first.findSome? Record.error?).map .undecodable := by
  intro lenient strict all first
  obtain ⟨rs, hrs⟩ :=
    exists_yields (d := lenient) rfl start false (data.take (0x10000 - start))
  have hall : all = rs := (disassemble_of_yields (d := lenient) hstart hrs none).1
  have hfirst : first = limited count rs := by
    simp only [first, hall, limited]
  obtain ⟨hrecords, hfault⟩ := disassemble_of_yields (d := lenient) hstart hrs count
  obtain ⟨hrecords', hfault'⟩ := disassemble_of_yields (d := strict) hstart hrs count
  rw [hfirst]
  exact ⟨hrecords, hfault, hrecords', hfault'⟩

/-- The sample with its four records: an error, an instruction and two errors. The strict
disassembler fails at the first byte, and a limit of no records leaves it nothing to fail at. -/
theorem disassemble_beginning_sampleData :
    (({} : Disassembler).disassemble sampleData 0xFFFB (some 2)).records.map Record.address =
        [0xFFFB, 0xFFFC] ∧
      (({ strict := true } : Disassembler).disassemble sampleData 0xFFFB (some 2)).fault =
        some (.undecodable ⟨0xFFFB, 0xCB, .undocumented⟩) ∧
      (({ strict := true } : Disassembler).disassemble sampleData 0xFFFB (some (-1))).fault =
        none := by
  obtain ⟨hrecords, -, -, hfault⟩ :=
    @disassemble_beginning {} sampleData 0xFFFB (by decide) (some 2)
  obtain ⟨-, -, -, hnone⟩ :=
    @disassemble_beginning {} sampleData 0xFFFB (by decide) (some (-1))
  exact ⟨(congrArg _ hrecords).trans (by decide +kernel), hfault.trans (by decide +kernel),
    hnone.trans (by decide +kernel)⟩

/-! ## Data in pieces -/

/-- A record takes up at least one byte. -/
lemma size_pos (r : Record) : 1 ≤ r.size := by
  unfold Record.size
  split
  · exact Nat.le_add_right 1 _
  · exact Nat.le_refl 1

/-- **A record that is not cut short** is read in the same way if more data follows, and all its
bytes are before that. -/
lemma decodeFront_append (h : d.decodeFront address byte rest = .ok r) (hr : isCut r = false)
    (more : List UInt8) :
    d.decodeFront address byte (rest ++ more) = .ok r ∧ r.size - 1 ≤ rest.length := by
  unfold decodeFront at h
  cases hdecode : Encoding.decode? byte with
  | none =>
    simp only [hdecode] at h
    have hsize : r.size = 1 := by
      rw [eq_of_refuse h]
      rfl
    refine ⟨?_, by omega⟩
    rw [decodeFront, hdecode]
    exact h
  | some found =>
    obtain ⟨e, vector⟩ := found
    obtain ⟨htable, hop⟩ := Encoding.decode?_eq_some hdecode
    simp only [hdecode] at h
    cases hread : readArguments? e vector rest with
    | none =>
      -- the record would be that of an instruction that is cut short
      simp only [hread] at h
      rw [eq_of_refuse h] at hr
      cases hr
    | some arguments =>
      simp only [hread] at h
      cases h
      obtain ⟨value, rest', hlt, rfl, rfl, rfl⟩ := exists_trail_of_readArguments? hop hread
      have hv : e.TakesValue value := fun kind hk => Immediate.takes_of_lt (hlt kind hk)
      have hlength := Encoding.length_trail htable value
      rw [readArguments?_trail htable hv] at hread
      cases hread
      refine ⟨?_, ?_⟩
      · rw [List.append_assoc, decodeFront, hdecode]
        simp only [readArguments?_trail htable hv, List.take_left' hlength]
      · simp only [accept, Record.size, List.length_append]
        omega

/-- **Records of two pieces of data**, one after the other, are the records of both together, unless
an instruction of the first piece is cut short.

**Proof sketch.** Induction on the records of the first piece. The data that follows changes no
record of it (`decodeFront_append`), and nothing of it is taken off before the first piece is used
up. -/
lemma Yields.append {more : List UInt8} {rs' : List Record} (h : d.Yields address cut data rs)
    (hcut : cut = false) (hrs : ∀ r ∈ rs, isCut r = false)
    (h' : d.Yields (address + data.length) false more rs') :
    d.Yields address cut (data ++ more) (rs ++ rs') := by
  induction h with
  | nil => rwa [hcut]
  | @cons address cut byte rest r rs hnext _ ih =>
    subst hcut
    obtain ⟨hr, hrs⟩ := List.forall_mem_cons.1 hrs
    have hpos := size_pos r
    obtain ⟨hdecode, hle⟩ := decodeFront_append hnext hr more
    have haddress : address + r.size + (rest.drop (r.size - 1)).length =
        address + (byte :: rest).length := by
      rw [List.length_drop, List.length_cons]
      omega
    rw [← haddress] at h'
    have hrest := ih (by rw [hr]; rfl) hrs h'
    rw [← List.drop_append_of_le_length hle] at hrest
    exact .cons hdecode hrest

/-- The first byte of an instruction that is cut short is a documented opcode. -/
lemma notMem_undocumented_of_isCut (hnext : d.next address cut byte rest = .ok r)
    (hr : isCut r = true) : r.opcode ∉ Encoding.undocumented := by
  unfold next decodeFront at hnext
  cases cut with
  | true =>
    rw [eq_of_refuse hnext] at hr
    cases hr
  | false =>
    simp only [Bool.false_eq_true, if_false] at hnext
    rcases hdecode : Encoding.decode? byte with _ | ⟨e, vector⟩
    · simp only [hdecode] at hnext
      rw [eq_of_refuse hnext] at hr
      cases hr
    · cases harguments : readArguments? e vector rest with
      | none =>
        simp only [hdecode, harguments] at hnext
        rw [eq_of_refuse hnext, ← Encoding.decode?_eq_none_iff, hdecode]
        simp
      | some arguments =>
        simp only [hdecode, harguments] at hnext
        cases hnext
        cases hr

/-- If every error is at an undocumented opcode, no instruction is cut short. -/
lemma Yields.isCut_eq_false (h : d.Yields address cut data rs)
    (hrs : ∀ r ∈ rs, r.error?.isSome = true → r.opcode ∈ Encoding.undocumented) :
    ∀ r ∈ rs, isCut r = false := by
  induction h with
  | nil => exact fun r hr => absurd hr List.not_mem_nil
  | @cons address cut byte rest r rs hnext _ ih =>
    obtain ⟨hr, hrs⟩ := List.forall_mem_cons.1 hrs
    refine List.forall_mem_cons.2 ⟨?_, ih hrs⟩
    rw [← Bool.not_eq_true]
    intro hiscut
    refine notMem_undocumented_of_isCut hnext hiscut (hr ?_)
    unfold isCut at hiscut
    unfold Record.error?
    cases hcontent : r.content with
    | data error => rfl
    | _ =>
      simp only [hcontent] at hiscut
      cases hiscut

/-- **Data is disassembled piece by piece.** Let the lenient disassembly of a piece of data that
ends in the address space have no error but at undocumented opcodes, so that no instruction of it is
cut short. Whatever data follows, the disassembly of both together has the records of the first
piece, and then the records of the second one from the address after the first.

**Proof sketch.** Both disassemblies ignore the same data past the end of the address space. No
record of the first piece is cut short (`Yields.isCut_eq_false`), so that the records of the two
pieces follow one another (`Yields.append`). -/
theorem disassemble_append (hd : d.strict = false) (front back : List UInt8) {start : Nat}
    (hspace : start + front.length ≤ 0xFFFF)
    (hfront : ∀ r ∈ (d.disassemble front start none).records,
      r.error?.isSome = true → r.opcode ∈ Encoding.undocumented) :
    (d.disassemble (front ++ back) start none).records =
        (d.disassemble front start none).records ++
          (d.disassemble back (start + front.length : Nat) none).records ∧
      (d.disassemble (front ++ back) start none).fault = none := by
  have hlenient : d.lenient = d := by rw [lenient, ← hd]
  have hdeliver : ∀ rs, d.deliver (limited none rs) = (rs, none) := by
    intro rs
    simp only [deliver, hd, limited, Option.elim_none, Bool.false_eq_true, if_false]
  -- the first piece is in the address space, and both cuts leave the same of the second
  have htake : front.take (0x10000 - start) = front := List.take_of_length_le (by omega)
  have hjoin : (front ++ back).take (0x10000 - start) =
      front ++ back.take (0x10000 - (start + front.length)) := by
    rw [List.take_append, htake, Nat.sub_sub]
  obtain ⟨rs, hrs⟩ := exists_yields hd start false front
  obtain ⟨rs', hrs'⟩ := exists_yields hd (start + front.length) false
    (back.take (0x10000 - (start + front.length)))
  have hstart : start ≤ 0xFFFF := by omega
  have hrecords : (d.disassemble front start none).records = rs := by
    rw [(disassemble_of_yields hstart (by rwa [hlenient, htake]) none).1, hdeliver]
  have hrecords' : (d.disassemble back (start + front.length : Nat) none).records = rs' := by
    rw [(disassemble_of_yields hspace (by rwa [hlenient]) none).1, hdeliver]
  rw [hrecords] at hfront
  have happend : d.lenient.Yields start false ((front ++ back).take (0x10000 - start))
      (rs ++ rs') := by
    rw [hlenient, hjoin]
    exact hrs.append rfl (hrs.isCut_eq_false hfront) hrs'
  obtain ⟨hboth, hfault⟩ := disassemble_of_yields hstart happend none
  rw [hboth, hfault, hrecords, hrecords', hdeliver]
  exact ⟨rfl, rfl⟩

/-- A piece that ends with an undocumented opcode and an instruction, and one that the end of the
address space cuts short. -/
theorem disassemble_append_sampleData :
    (∀ r ∈ (({} : Disassembler).disassemble [0xCB, 0x3E, 0xCB] 0xFFFB none).records,
      r.error?.isSome = true → r.opcode ∈ Encoding.undocumented) ∧
    (({} : Disassembler).disassemble sampleData 0xFFFB none).records =
      (({} : Disassembler).disassemble [0xCB, 0x3E, 0xCB] 0xFFFB none).records ++
        (({} : Disassembler).disassemble [0xC3, 0x08, 0x00] 0xFFFE none).records := by
  have hfront : ∀ r ∈ (({} : Disassembler).disassemble [0xCB, 0x3E, 0xCB] 0xFFFB none).records,
      r.error?.isSome = true → r.opcode ∈ Encoding.undocumented := by decide +kernel
  exact ⟨hfront, (@disassemble_append {} rfl [0xCB, 0x3E, 0xCB] [0xC3, 0x08, 0x00] 0xFFFB
    (by decide) hfront).1⟩

end Disassembler

end Asm8080
