import NetPool.Claim.Basic
import NetPool.Proofs.Json

/-! Claim records written and read back. -/

namespace NetPool

namespace ClaimRecord

open Json Text

/-- What the members of a record are written from and read as. -/
def atoms (r : ClaimRecord) : List (String × Value × Token) :=
  [("owner", .str r.owner, .text (some r.owner))] ++
    (r.expiration.map fun e =>
      ("expiration_ms", .nat e.toNat, .number (numeralText e.toNat))).toList ++
    (r.workload.map fun w => ("workload", .str w, .text (some w))).toList

theorem ofBytes?_encode (r : ClaimRecord) : Value.ofBytes? r.encode = some r.toJson := by
  have json : r.toJson = .obj (r.atoms.map fun m => (m.1, m.2.1)) := by
    obtain ⟨owner, expiration, workload⟩ := r
    cases expiration <;> cases workload <;> rfl
  have all : ∀ m ∈ r.atoms, Atom m.2.1 m.2.2 := by
    intro m mem
    simp only [atoms, List.mem_append, List.mem_singleton, Option.mem_toList,
      Option.map_eq_some_iff] at mem
    rcases mem with (rfl | ⟨e, _, rfl⟩) | ⟨w, _, rfl⟩
    · exact atom_str _
    · exact atom_nat _
    · exact atom_str _
  rw [Value.ofBytes?, encode, json, reads_record (by simp [atoms]) all]
  obtain ⟨owner, expiration, workload⟩ := r
  cases expiration <;> cases workload <;> rfl

theorem optional_deadline (e : UInt64) : optional deadline? (.nat e.toNat) = some (some e) := by
  have word : e.toNat < UInt64.size := e.toNat_lt
  change (deadline? (.nat e.toNat)).map some = _
  simp [deadline?, Value.nat?, Value.nat, numeralText, digits?_numeral, word, Option.filter]

theorem ofMembers?_eq_some {members : List (Option String × Value)} {owner : Value}
    {expiration workload : Option Value} {r : ClaimRecord} (named : members.all (·.1.isSome) = true)
    (owners : unique? "owner" members = some (some owner))
    (expirations : unique? "expiration_ms" members = some expiration)
    (workloads : unique? "workload" members = some workload)
    (owned : owner.text? = some r.owner)
    (leased : optional deadline? (expiration.getD .null) = some r.expiration)
    (worked : optional Value.text? (workload.getD .null) = some r.workload) :
    ofMembers? members = some r := by
  unfold ofMembers?
  rw [show guard (members.all (·.1.isSome)) = some () from if_pos named, owners, expirations,
    workloads]
  change (owner.text?.bind fun o => (optional deadline? (expiration.getD .null)).bind fun e =>
    (optional Value.text? (workload.getD .null)).bind fun w => some ⟨o, e, w⟩) = some r
  rw [owned, leased, worked]
  rfl

/-- A record that was written is read back. -/
theorem decode?_encode (r : ClaimRecord) : decode? r.encode = some r := by
  rw [decode?, ofBytes?_encode, Option.bind_some]
  obtain ⟨owner, expiration, workload⟩ := r
  cases expiration <;> cases workload <;>
    refine ofMembers?_eq_some rfl rfl rfl rfl rfl ?_ ?_ <;> first | rfl | exact optional_deadline _

/-- The text of a record: its fields in order, those that are absent left out, with no blank
between them. -/
def text (r : ClaimRecord) : String :=
  "\x7b\"owner\":" ++ Json.quoted r.owner ++
    (r.expiration.elim "" fun e => ",\"expiration_ms\":" ++ numeralText e.toNat) ++
    (r.workload.elim "" fun w => ",\"workload\":" ++ Json.quoted w) ++ "\x7d"

theorem encode_eq_text (r : ClaimRecord) : r.encode = utf8 r.text := by
  have first : "\x7b\"owner\":" = "\x7b" ++ (Json.quoted "owner" ++ ":") := by decide
  have second : ",\"expiration_ms\":" = "," ++ (Json.quoted "expiration_ms" ++ ":") := by decide
  have third : ",\"workload\":" = "," ++ (Json.quoted "workload" ++ ":") := by decide
  obtain ⟨owner, expiration, workload⟩ := r
  cases expiration <;> cases workload <;>
    simp [encode, text, first, second, third, toJson, Value.obj, Value.str, Value.nat, Value.compact,
      Value.compact.memberTexts, String.intercalate_cons_cons, String.append_assoc]

example : (ofOwner "node\t\"a\"").text = "\x7b\"owner\":\"node\\t\\\"a\\\"\"\x7d" := by decide

/-- A record is written as its text. From the bytes it is read back as it was, under any key, so
no other record is written the same way. -/
theorem encode_faithful (r s : ClaimRecord) (key : String) :
    r.encode = utf8 r.text ∧ decode key r.encode = .ok r ∧ (r.encode = s.encode ↔ r = s) := by
  refine ⟨encode_eq_text r, ?_, ?_, congrArg encode⟩
  · rw [decode, decode?_encode]
  · intro same
    have read : decode? r.encode = decode? s.encode := congrArg decode? same
    rwa [decode?_encode, decode?_encode, Option.some.injEq] at read

end ClaimRecord

theorem toOption_eq_some {α ε : Type} {x : Except ε α} {a : α} : x.toOption = some a ↔ x = .ok a := by
  cases x <;> simp [Except.toOption]

theorem mem_decodeClaims {α : Type} {decode : KeyValue → Except Failure α} {entries : List KeyValue}
    {c : α} : c ∈ decodeClaims decode entries ↔ ∃ e ∈ entries, decode e = .ok c := by
  simp only [decodeClaims, List.mem_filterMap, toOption_eq_some]

end NetPool
