import MetalBear.Library.ByteText
import MetalBear.Library.Format

/-!
# DNS messages

The format of DNS messages: names in labels, which end at the root or in a compression pointer,
questions, records, and the header that counts them. A pointer is kept as it is and not followed.
-/

namespace DnsMessage

open Format

/-! ## Names -/

/-- A name as it is written; without a pointer it ends at the root. -/
structure WireName where
  labels : List (List UInt8)
  pointer : Option Nat
  deriving DecidableEq, Repr

/-- A name of so many labels, written out. -/
def WireName.full (labels : List (List UInt8)) : WireName := ⟨labels, none⟩

/-- What stands behind the labels. -/
def encodeEnd : Option Nat → List UInt8
  | none => [0]
  | some offset => bytes16 (0xc000 + offset)

/-- A label behind its length. -/
def encodeLabel (label : List UInt8) : List UInt8 := UInt8.ofNat label.length :: label

/-- What is written for a name. -/
def WireName.encode (name : WireName) : List UInt8 :=
  name.labels.flatMap encodeLabel ++ encodeEnd name.pointer

/-- A label has up to 63 bytes, and a pointer 14 bits. -/
structure WireName.Valid (name : WireName) : Prop where
  labels : ∀ label ∈ name.labels, 0 < label.length ∧ label.length < 64
  pointer : ∀ offset ∈ name.pointer, offset < 2 ^ 14

/-- A name off the front of a text, with a bound on the labels and the end. -/
def takeName : Nat → List UInt8 → Option (WireName × List UInt8)
  | 0, _ => none
  | _ + 1, [] => none
  | n + 1, b :: rest =>
    if b.toNat = 0 then some (⟨[], none⟩, rest)
    else if b.toNat < 64 then
      if b.toNat ≤ rest.length then
        (takeName n (rest.drop b.toNat)).map fun p =>
          (⟨rest.take b.toNat :: p.1.labels, p.1.pointer⟩, p.2)
      else none
    else if b.toNat < 192 then none
    else
      match rest with
      | [] => none
      | low :: rest => some (⟨[], some (word16 b low - 0xc000)⟩, rest)

variable {name : WireName} {bytes rest : List UInt8}

theorem WireName.encode_cons (label : List UInt8) (labels : List (List UInt8))
    (pointer : Option Nat) : WireName.encode ⟨label :: labels, pointer⟩ =
      UInt8.ofNat label.length :: (label ++ WireName.encode ⟨labels, pointer⟩) := by
  rw [WireName.encode, WireName.encode, List.flatMap_cons, encodeLabel]
  exact congrArg _ (List.append_assoc ..)

theorem toNat_ofNat_of_lt {n : Nat} (h : n < 256) : (UInt8.ofNat n).toNat = n := by
  rw [UInt8.toNat_ofNat']
  exact Nat.mod_eq_of_lt h

/-- A name that is taken is valid, and is what the text begins with. -/
theorem takeName_sound {n : Nat} (h : takeName n bytes = some (name, rest)) :
    name.Valid ∧ bytes = name.encode ++ rest := by
  induction n generalizing bytes name with
  | zero => cases h
  | succ n ih =>
    cases bytes with
    | nil => cases h
    | cons b bytes =>
      unfold takeName at h
      split at h
      · next hzero =>
        cases h
        obtain rfl : b = 0 := UInt8.toNat_inj.mp hzero
        exact ⟨⟨fun _ hl => (by cases hl), fun _ hp => (by cases hp)⟩, rfl⟩
      · next hzero =>
        split at h
        · next hshort =>
          split at h
          · next hle =>
            obtain ⟨⟨name', rest'⟩, htake, heq⟩ := Option.map_eq_some_iff.mp h
            cases heq
            obtain ⟨hvalid, hdrop⟩ := ih htake
            have hlength : (bytes.take b.toNat).length = b.toNat := List.length_take_of_le hle
            refine ⟨⟨List.forall_mem_cons.mpr ⟨by omega, hvalid.labels⟩, hvalid.pointer⟩, ?_⟩
            rw [WireName.encode_cons, hlength, UInt8.ofNat_toNat, List.cons_append,
              List.append_assoc, ← hdrop, List.take_append_drop]
          · cases h
        · split at h
          · cases h
          · next hlong =>
            split at h
            · cases h
            · next low rest' =>
              cases h
              have hword := word16_lt b low
              have hhigh : 0xc000 ≤ word16 b low := by
                unfold word16
                omega
              refine ⟨⟨fun _ hl => (by cases hl), fun offset hp => ?_⟩, ?_⟩
              · obtain rfl := Option.some.inj hp
                omega
              · rw [WireName.encode, encodeEnd, Nat.add_sub_cancel' hhigh, bytes16_word16]
                rfl

/-- A valid name is taken off the text that begins with it. -/
theorem takeName_complete {n : Nat} (h : name.Valid) (hn : name.labels.length < n) :
    takeName n (name.encode ++ rest) = some (name, rest) := by
  obtain ⟨labels, pointer⟩ := name
  induction n generalizing labels with
  | zero => cases hn
  | succ n ih =>
    cases labels with
    | nil =>
      cases pointer with
      | none => rfl
      | some offset =>
        have hoffset : offset < 2 ^ 14 := h.pointer offset rfl
        have hhigh : (UInt8.ofNat ((0xc000 + offset) / 256)).toNat = (0xc000 + offset) / 256 :=
          toNat_ofNat_of_lt (by omega)
        have hword : word16 (UInt8.ofNat ((0xc000 + offset) / 256))
            (UInt8.ofNat (0xc000 + offset)) = 0xc000 + offset := word16_ofNat (by omega)
        rw [WireName.encode, List.flatMap_nil, List.nil_append, encodeEnd, bytes16,
          List.cons_append, List.cons_append, List.nil_append]
        unfold takeName
        rw [hhigh, if_neg (by omega), if_neg (by omega), if_neg (by omega)]
        dsimp only
        rw [hword, Nat.add_sub_cancel_left]
    | cons label labels =>
      obtain ⟨hlabel, hlabels⟩ := List.forall_mem_cons.mp h.labels
      have hbyte : (UInt8.ofNat label.length).toNat = label.length :=
        toNat_ofNat_of_lt (by omega)
      rw [WireName.encode_cons, List.cons_append, List.append_assoc]
      unfold takeName
      rw [hbyte, if_neg (by omega), if_pos hlabel.2,
        if_pos (by rw [List.length_append]; omega), List.take_left, List.drop_left,
        ih labels ⟨hlabels, h.pointer⟩ (Nat.lt_of_succ_lt_succ hn)]
      rfl

/-- There are no more labels than bytes, and something behind them. -/
theorem WireName.length_labels_lt (name : WireName) : name.labels.length < name.encode.length := by
  have hlabels : name.labels.length ≤ (name.labels.flatMap encodeLabel).length := by
    induction name.labels with
    | nil => exact Nat.le_refl 0
    | cons label labels ih =>
      rw [List.flatMap_cons, List.length_append, List.length_cons, encodeLabel, List.length_cons]
      omega
  have hend : 0 < (encodeEnd name.pointer).length := by
    cases name.pointer <;> exact Nat.succ_pos _
  rw [WireName.encode, List.length_append]
  omega

/-- The format of names. -/
def wireName : Format WireName where
  encode := WireName.encode
  take bytes := takeName bytes.length bytes
  Valid := WireName.Valid
  take_eq_some bytes name rest := by
    refine ⟨takeName_sound, ?_⟩
    rintro ⟨hvalid, rfl⟩
    refine takeName_complete hvalid ?_
    have := name.length_labels_lt
    rw [List.length_append]
    omega

/-! ## Questions and records -/

/-- An entry of the question section. -/
structure Question where
  name : WireName
  type : Nat
  qclass : Nat
  deriving DecidableEq, Repr

/-- A resource record. -/
structure Record where
  name : WireName
  type : Nat
  rclass : Nat
  ttl : Nat
  rdata : List UInt8
  deriving DecidableEq, Repr

/-- The format of questions. -/
def question : Format Question :=
  (wireName.seq (word.seq word)).shape (fun p => ⟨p.1, p.2.1, p.2.2⟩)
    (fun q => (q.name, q.type, q.qclass)) (fun _ _ => rfl) fun _ => rfl

/-- The format of records. -/
def record : Format Record :=
  (wireName.seq (word.seq (word.seq (long.seq counted)))).shape
    (fun p => ⟨p.1, p.2.1, p.2.2.1, p.2.2.2.1, p.2.2.2.2⟩)
    (fun r => (r.name, r.type, r.rclass, r.ttl, r.rdata)) (fun _ _ => rfl) fun _ => rfl

/-! ## Messages -/

/-- A message, with the sections that its header counts. -/
structure Message where
  id : Nat
  flags : Nat
  questions : List Question
  answers : List Record
  authority : List Record
  additional : List Record
  deriving DecidableEq, Repr

/-- The header: the identifier, the flags, and the sizes of the sections. -/
def header : Format (Nat × Nat × Nat × Nat × Nat × Nat) :=
  word.seq (word.seq (word.seq (word.seq (word.seq word))))

/-- The format of messages. -/
def message : Format Message :=
  (header.dep fun h => (question.list h.2.2.1).seq ((record.list h.2.2.2.1).seq
    ((record.list h.2.2.2.2.1).seq (record.list h.2.2.2.2.2)))).shape
    (fun p => ⟨p.1.1, p.1.2.1, p.2.1, p.2.2.1, p.2.2.2.1, p.2.2.2.2⟩)
    (fun m => ((m.id, m.flags, m.questions.length, m.answers.length, m.authority.length,
      m.additional.length), m.questions, m.answers, m.authority, m.additional))
    (fun p hp => by
      obtain ⟨⟨id, flags, qd, an, ns, ar⟩, questions, answers, authority, additional⟩ := p
      obtain ⟨-, ⟨hqd, -⟩, ⟨han, -⟩, ⟨hns, -⟩, har, -⟩ := hp
      dsimp only at hqd han hns har ⊢
      rw [hqd, han, hns, har])
    fun _ => rfl

/-! ## Signatures -/

/-- The data of a transaction signature. -/
structure Tsig where
  algorithm : WireName
  timeHigh : Nat
  timeLow : Nat
  fudge : Nat
  mac : List UInt8
  originalId : Nat
  error : Nat
  other : List UInt8
  deriving DecidableEq, Repr

/-- The format of signatures. -/
def tsig : Format Tsig :=
  (wireName.seq (word.seq (long.seq (word.seq (counted.seq (word.seq (word.seq counted))))))).shape
    (fun p => ⟨p.1, p.2.1, p.2.2.1, p.2.2.2.1, p.2.2.2.2.1, p.2.2.2.2.2.1, p.2.2.2.2.2.2.1,
      p.2.2.2.2.2.2.2⟩)
    (fun t => (t.algorithm, t.timeHigh, t.timeLow, t.fudge, t.mac, t.originalId, t.error, t.other))
    (fun _ _ => rfl) fun _ => rfl

/-- A name in the canonical form. -/
def WireName.lower (name : WireName) : WireName :=
  ⟨name.labels.map fun label => label.map ByteText.toLower, name.pointer⟩

/-- What the digest covers behind the message: the record and its data, without the digest. -/
def tsigVariables (r : Record) (t : Tsig) : List UInt8 :=
  r.name.lower.encode ++ (bytes16 r.rclass ++ (long.encode r.ttl ++ (t.algorithm.lower.encode ++
    (bytes16 t.timeHigh ++ (long.encode t.timeLow ++ (bytes16 t.fudge ++ (bytes16 t.error ++
      counted.encode t.other)))))))

/-- The last record of a message is a signature of the message without it, under the original
identifier. -/
def Signed (mac : List UInt8 → Option (List UInt8)) (m : Message) : Prop :=
  ∃ additional r t, m.additional = additional ++ [r] ∧ r.type = 250 ∧ r.rclass = 255 ∧ r.ttl = 0 ∧
    tsig.take r.rdata = some (t, []) ∧
    mac (message.encode { m with id := t.originalId, additional := additional } ++
      tsigVariables r t) = some t.mac

/-! ## Updates -/

/-- What a zone holds: of every name, in the canonical form, and every type, the records, each its
lifetime and its data. -/
abbrev Zone := List (List UInt8) → Nat → List (Nat × List UInt8)

/-- A zone as one entry of an update leaves it: class 255 takes away the records of a type, class
254 the record with the data, and any other class adds a record, in place of one with the data. -/
def Zone.update (zone : Zone) (r : Record) : Zone := fun name type =>
  let others := (zone name type).filter fun entry => decide (entry.2 ≠ r.rdata)
  if name = r.name.lower.labels ∧ (type = r.type ∨ r.rclass = 255 ∧ r.type = 255) then
    if r.rclass = 255 then []
    else if r.rclass = 254 then others
    else others ++ [(r.ttl, r.rdata)]
  else zone name type

section Update

variable {zone : Zone} {r : Record} {owner : List (List UInt8)} {type : Nat}

/-- An entry of one type changes nothing but the records of its name and type. -/
theorem Zone.update_of_type (h : r.type ≠ 255) :
    zone.update r owner type = if owner = r.name.lower.labels ∧ type = r.type then
      zone.update r r.name.lower.labels r.type else zone owner type := by
  by_cases hand : owner = r.name.lower.labels ∧ type = r.type
  · rw [if_pos hand, hand.1, hand.2]
  · rw [if_neg hand, update, if_neg]
    rintro ⟨howner, htype | hany⟩
    · exact hand ⟨howner, htype⟩
    · exact h hany.2

theorem Zone.update_self_of_any (zone : Zone) (h : r.rclass = 255) :
    zone.update r r.name.lower.labels r.type = [] := by
  rw [update, if_pos ⟨rfl, Or.inl rfl⟩, if_pos h]

theorem Zone.update_self_of_add (zone : Zone) (hany : r.rclass ≠ 255) (hnone : r.rclass ≠ 254)
    (hempty : zone r.name.lower.labels r.type = []) :
    zone.update r r.name.lower.labels r.type = [(r.ttl, r.rdata)] := by
  rw [update, if_pos ⟨rfl, Or.inl rfl⟩, if_neg hany, if_neg hnone, hempty]
  rfl

end Update

end DnsMessage
