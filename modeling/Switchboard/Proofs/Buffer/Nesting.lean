import Switchboard.Proofs.Buffer.Listing
import Switchboard.Proofs.Buffer.RoundTrip
import Switchboard.Proofs.Buffer.Uses

/-!
# Buffers in buffers

A buffer of any kind is embedded as its unread octets behind their length, is itself as it was,
and is read back as a new buffer. Buffers that were read back are open side by side and visited
in any order. A visit to one of them leaves the others as they are, so each answers as if it were
the only one (`answersAt_visitEach`).

A row of octets and buffers, in which each of the buffers holds such a row in turn (`Nest`), is
then read back at every depth, whichever level is read on next: what is carried along is that
every open buffer has the rest of its row unread (`Nest.Held`).
-/

namespace Switchboard

namespace Draft

theorem embed_any (target : Draft) (b : AnyBuffer) :
    target.embed b = (target.write (block (Source.unread b)), b) := by
  cases b with
  | draft d =>
    apply Source.embed_eq
    · rfl
    · intro n
      exact congrArg AnyBuffer.draft (d.rollback_consume_mark n)
  | frozen b => exact Source.embed_eq target _ rfl fun _ => rfl

/-- The length of what is embedded stands in front of it in its shortest spelling. -/
theorem embed_shortest (target : Draft) (b : AnyBuffer)
    (h : (Source.unread b).length < UInt32.size) :
    ∃ head, VarInt.Shortest .int (Source.unread b).length head ∧
      target.embed b = (target.write (head ++ Source.unread b), b) := by
  refine ⟨VarInt.encode (Source.unread b).length, ?_, ?_⟩
  · exact (VarInt.spells_encode .int h).shortest_iff.mpr rfl
  · rw [embed_any, block, Reader.lengthPrefix_eq h]

/-- What was embedded is read back as a new buffer of the octets that were unread. -/
theorem embed_givesBack (target : Draft) (b : AnyBuffer) (rest : List UInt8)
    (h : (Source.unread b).length < UInt32.size) :
    (((target.embed b).1.write rest).seek target.size).GivesBack (Source.read Reader.buffer)
      { bytes := Source.unread b, cursor := 0, marks := [] } (target.embed b).1.size rest := by
  rw [embed_any]
  apply givesBack_write
  exact Source.read_of_reads (Reader.reads_buffer _ h)

end Draft

/-- What a draft is filled with, in a row: octets, and buffers that hold such a row. -/
inductive Nest where
  | nil
  | octets (s : List UInt8) (rest : Nest)
  | nested (source : AnyBuffer) (inner rest : Nest)

namespace Nest

def fill : Nest → Draft → Draft
  | nil, d => d
  | octets s rest, d => rest.fill (d.write s)
  | nested source _ rest, d => rest.fill (d.embed source).1

def content (t : Nest) : List UInt8 := (t.fill .empty).bytes

/-- Each embedded buffer, whatever it was used for before, has its row unread, which is shorter
than 2 ^ 32 octets. -/
def Fits : Nest → Prop
  | nil => True
  | octets _ rest => rest.Fits
  | nested source inner rest =>
    (Source.unread source = inner.content ∧ inner.content.length < UInt32.size) ∧
      inner.Fits ∧ rest.Fits

/-- Filling a draft appends the content, whatever was in it. -/
theorem fill_eq (t : Nest) (d : Draft) : t.fill d = d.write t.content := by
  have hwrites : ∃ s, ∀ d, t.fill d = d.write s := by
    induction t with
    | nil => exact ⟨[], fun d => d.write_nil.symm⟩
    | octets s rest ih =>
      obtain ⟨u, hu⟩ := ih
      exact ⟨s ++ u, fun d => by rw [fill, hu, Draft.write_write]⟩
    | nested source inner rest _ ih =>
      obtain ⟨u, hu⟩ := ih
      refine ⟨block (Source.unread source) ++ u, fun d => ?_⟩
      rw [fill, hu, Draft.embed_any, Draft.write_write]
  obtain ⟨s, hs⟩ := hwrites
  have hcontent : t.content = s := by
    rw [content, hs]
    rfl
  rw [hs, hcontent]

@[simp] theorem content_octets (s : List UInt8) (rest : Nest) :
    (octets s rest).content = s ++ rest.content := by
  rw [content, fill, fill_eq, Draft.write_write]
  rfl

@[simp] theorem content_nested (source : AnyBuffer) (inner rest : Nest) :
    (nested source inner rest).content = block (Source.unread source) ++ rest.content := by
  rw [content, fill, fill_eq, Draft.embed_any, Draft.write_write]
  rfl

/-- A draft that is filled has the row unread behind what it had unread before. -/
theorem unread_fill (t : Nest) {d : Draft} (h : d.cursor ≤ d.size) :
    (t.fill d).unread = d.unread ++ t.content := by
  rw [fill_eq, Draft.unread, Draft.write, Draft.unread, List.drop_append_of_le_length h]

structure Held (t : Nest) (b : AnyBuffer) : Prop where
  fits : t.Fits
  unread : ∃ rest, Source.unread b = t.content ++ rest

namespace Held

variable {t inner : Nest} {b source : AnyBuffer} {s : List UInt8}

theorem octets (h : (Nest.octets s t).Held b) :
    ∃ b', Source.read (Reader.take s.length) b = (.ok s, b') ∧ t.Held b' := by
  obtain ⟨hfits, rest, hb⟩ := h
  rw [content_octets, List.append_assoc] at hb
  have hread := Source.read_of_reads (Reader.reads_take s) b hb
  exact ⟨_, hread, hfits, rest, Source.unread_consume_append hb⟩

/-- The nested buffer is read, and its own row is held by what is read. -/
theorem nested (h : (Nest.nested source inner t).Held b) :
    ∃ b', Source.read Reader.buffer b = (.ok (Buffer.ofBytes (Source.unread source)), b') ∧
      t.Held b' ∧ inner.Held (.frozen (Buffer.ofBytes (Source.unread source))) := by
  obtain ⟨⟨⟨hsource, hsize⟩, hinner, ht⟩, rest, hb⟩ := h
  rw [content_nested, List.append_assoc] at hb
  have hreads := Reader.reads_buffer (Source.unread source) (hsource ▸ hsize)
  refine ⟨_, Source.read_of_reads hreads b hb, ⟨ht, rest, Source.unread_consume_append hb⟩,
    hinner, [], ?_⟩
  rw [List.append_nil, ← hsource]
  rfl

end Held

end Nest

/-- One step in reading the buffers that are open: a use of the one at place `i`, or a buffer
read from it, which is then open at the end of their row. -/
inductive Visit : Type 1 where
  | use (i : Nat) (u : Source.Use)
  | enter (i : Nat)

namespace Visit

def place : Visit → Nat
  | use i _ | enter i => i

def toUse : Visit → Source.Use
  | use _ u => u
  | enter _ => .read Reader.buffer

/-- The buffer that is open besides, behind a visit to `b`. -/
def opens : Visit → AnyBuffer → List AnyBuffer
  | use _ _, _ => []
  | enter _, b =>
    match (Source.read Reader.buffer b).1 with
    | .ok w => [.frozen w]
    | .error _ => []

def on (v : Visit) (bs : List AnyBuffer) : Option Source.Answer × List AnyBuffer :=
  match bs[v.place]? with
  | none => (none, bs)
  | some b => (some (v.toUse.on b).1, bs.set v.place (v.toUse.on b).2 ++ v.opens b)

end Visit

def visitEach : List Visit → List AnyBuffer → List (Option Source.Answer) × List AnyBuffer
  | [], bs => ([], bs)
  | v :: vs, bs =>
    let (answers, after) := visitEach vs (v.on bs).2
    ((v.on bs).1 :: answers, after)

def usesAt (i : Nat) : List Visit → List Source.Use
  | [] => []
  | v :: vs => if v.place = i then v.toUse :: usesAt i vs else usesAt i vs

def answersAt (i : Nat) : List Visit → List (Option Source.Answer) → List (Option Source.Answer)
  | v :: vs, a :: answers =>
    if v.place = i then a :: answersAt i vs answers else answersAt i vs answers
  | _, _ => []

namespace Visit

variable {v : Visit} {bs : List AnyBuffer} {b : AnyBuffer} {i : Nat}

theorem on_same (hv : v.place = i) (h : bs[i]? = some b) :
    (v.on bs).1 = some (v.toUse.on b).1 ∧ (v.on bs).2[i]? = some (v.toUse.on b).2 := by
  subst hv
  have hlt : v.place < bs.length := (List.getElem?_eq_some_iff.mp h).1
  simp only [on, h, true_and]
  rw [List.getElem?_append_left (by simpa using hlt), List.getElem?_set_self hlt]

theorem on_other (hv : v.place ≠ i) (h : bs[i]? = some b) : (v.on bs).2[i]? = some b := by
  have hlt : i < bs.length := (List.getElem?_eq_some_iff.mp h).1
  simp only [on]
  split
  · exact h
  · rw [List.getElem?_append_left (by simpa using hlt), List.getElem?_set_ne hv, h]

end Visit

/-- Each open buffer is used as it would be alone. -/
theorem answersAt_visitEach (vs : List Visit) {bs : List AnyBuffer} {b : AnyBuffer} {i : Nat}
    (h : bs[i]? = some b) :
    answersAt i vs (visitEach vs bs).1 = (Source.useEach (usesAt i vs) b).1.map some ∧
      (visitEach vs bs).2[i]? = some (Source.useEach (usesAt i vs) b).2 := by
  induction vs generalizing bs b with
  | nil => exact ⟨rfl, h⟩
  | cons v vs ih =>
    by_cases hv : v.place = i
    · obtain ⟨hanswer, hnext⟩ := Visit.on_same hv h
      obtain ⟨hanswers, hafter⟩ := ih hnext
      simp only [visitEach, answersAt, usesAt, hv, if_true, Source.useEach, List.map_cons]
      exact ⟨by rw [hanswer, hanswers], hafter⟩
    · simp only [visitEach, answersAt, usesAt, hv, if_false]
      exact ih (Visit.on_other hv h)

namespace Nest

/-- The visits that read the rows of the open buffers, where `schedule` says at which place the
next part is read, and what each is to be answered. -/
def plan : (schedule : List Nat) → List Nest → List (Visit × Source.Answer)
  | [], _ => []
  | i :: schedule, ts =>
    match ts[i]? with
    | some (octets s rest) =>
      (.use i (.read (Reader.take s.length)), .outcome (.ok s)) :: plan schedule (ts.set i rest)
    | some (nested source inner rest) =>
      (.enter i, .outcome (.ok (Buffer.ofBytes (Source.unread source)))) ::
        plan schedule (ts.set i rest ++ [inner])
    | some nil | none => plan schedule ts

variable {ts : List Nest} {bs : List AnyBuffer} {t : Nest} {b : AnyBuffer}

theorem held_getElem? (h : List.Forall₂ Held ts bs) {i : Nat} (hi : ts[i]? = some t) :
    ∃ b, bs[i]? = some b ∧ t.Held b := by
  induction h generalizing i with
  | nil => simp at hi
  | @cons t' b' ts bs hhead htail ih =>
    cases i with
    | zero =>
      obtain rfl := Option.some.inj hi
      exact ⟨b', rfl, hhead⟩
    | succ i => exact ih hi

/-- The rows stay held when one buffer and its row are replaced together. -/
theorem held_set (h : List.Forall₂ Held ts bs) (ht : t.Held b) (i : Nat) :
    List.Forall₂ Held (ts.set i t) (bs.set i b) := by
  induction h generalizing i with
  | nil => exact .nil
  | cons hhead htail ih =>
    cases i with
    | zero => exact .cons ht htail
    | succ i => exact .cons hhead (ih i)

/-- Whichever row is read on next, its next part is read as it was written. -/
theorem visitEach_plan (schedule : List Nat) (h : List.Forall₂ Held ts bs) :
    (visitEach ((plan schedule ts).map Prod.fst) bs).1 =
      (plan schedule ts).map fun step => some step.2 := by
  induction schedule generalizing ts bs with
  | nil => rfl
  | cons i schedule ih =>
    rw [plan]
    split
    · rename_i s t hi
      obtain ⟨b, hb, hheld⟩ := held_getElem? h hi
      obtain ⟨b', hread, hnext⟩ := hheld.octets
      have hon : (Visit.use i (.read (Reader.take s.length))).on bs =
          (some (.outcome (.ok s)), bs.set i b') := by
        simp only [Visit.on, Visit.place, Visit.toUse, Visit.opens, Source.Use.on, hb, hread,
          List.append_nil]
      simp only [List.map_cons, visitEach, hon]
      rw [ih (held_set h hnext i)]
    · rename_i source inner t hi
      obtain ⟨b, hb, hheld⟩ := held_getElem? h hi
      obtain ⟨b', hread, hnext, hinner⟩ := hheld.nested
      have hon : (Visit.enter i).on bs =
          (some (.outcome (.ok (Buffer.ofBytes (Source.unread source)))),
            bs.set i b' ++ [.frozen (Buffer.ofBytes (Source.unread source))]) := by
        simp only [Visit.on, Visit.place, Visit.toUse, Visit.opens, Source.Use.on, hb, hread]
      simp only [List.map_cons, visitEach, hon]
      rw [ih (List.rel_append (held_set h hnext i) (.cons hinner .nil))]
    · exact ih h
    · exact ih h

end Nest

/-- Embedding disturbs nothing. A buffer of either kind, with its cursor anywhere and any
transactions open, is written behind the draft as the shortest spelling of the number of its
unread octets and those octets, and is itself what it was; read back it is a new buffer of them.
Of buffers that are open side by side each answers as if it were read alone, however the visits
are mixed; so buffers in buffers, at any depth, are read back as they were written, whichever
level is read on next. -/
theorem embedding_disturbs_nothing :
    (∀ (target : Draft) (b : AnyBuffer) (rest : List UInt8),
      (Source.unread b).length < UInt32.size →
      (∃ head, VarInt.Shortest .int (Source.unread b).length head ∧
        target.embed b = (target.write (head ++ Source.unread b), b)) ∧
      (((target.embed b).1.write rest).seek target.size).GivesBack (Source.read Reader.buffer)
        { bytes := Source.unread b, cursor := 0, marks := [] } (target.embed b).1.size rest) ∧
    (∀ (vs : List Visit) (bs : List AnyBuffer) (i : Nat) (b : AnyBuffer), bs[i]? = some b →
      answersAt i vs (visitEach vs bs).1 = (Source.useEach (usesAt i vs) b).1.map some ∧
        (visitEach vs bs).2[i]? = some (Source.useEach (usesAt i vs) b).2) ∧
    (∀ (t : Nest) (d : Draft) (rest : List UInt8) (schedule : List Nat), t.Fits →
      let e := ((t.fill d).write rest).seek d.size
      let steps := Nest.plan schedule [t]
      (visitEach (steps.map Prod.fst) [.draft e]).1 = steps.map (fun step => some step.2) ∧
        (e.size < wordSize → (visitEach (steps.map Prod.fst) [.frozen e.freeze]).1 =
          steps.map fun step => some step.2)) := by
  refine ⟨?_, ?_, ?_⟩
  · intro target b rest h
    exact ⟨target.embed_shortest b h, target.embed_givesBack b rest h⟩
  · intro vs bs i b h
    exact answersAt_visitEach vs h
  · intro t d rest schedule h e steps
    have he : e = (d.write (t.content ++ rest)).seek d.size := by
      simp only [e, Nest.fill_eq, Draft.write_write]
    have hunread : Source.unread e = t.content ++ rest := he ▸ d.unread_seek_write _
    constructor
    · apply Nest.visitEach_plan
      exact .cons ⟨h, rest, hunread⟩ .nil
    · intro _
      have hfrozen : Source.unread e.freeze = t.content ++ rest := by
        rw [he]
        exact (d.freeze_seek_write _).1
      apply Nest.visitEach_plan
      exact .cons ⟨h, rest, hfrozen⟩ .nil

/-- A draft in a transaction, with an octet in it that was read already, holds a frozen buffer of
which an octet was read; the two and the draft that they are read from are read by turns. -/
theorem two_levels_undisturbed :
    let deep : AnyBuffer := .frozen { bytes := [9, 7], cursor := 1, marks := [0] }
    let inner : Nest := .octets [1, 2] (.nested deep (.octets [7] .nil) .nil)
    let source : AnyBuffer := .draft (inner.fill { bytes := [0], cursor := 1, marks := [(0, 1)] })
    let t : Nest := .nested source inner (.octets [5] .nil)
    let e : Draft := ((t.fill (.ofBytes [3])).write []).seek 1
    let vs : List Visit := [.enter 0, .use 1 (.advance 2), .use 0 (.read Reader.u8), .enter 1]
    let octets (s : List UInt8) : Source.Answer := .outcome (.ok s)
    let opened (s : List UInt8) : Source.Answer := .outcome (.ok (Buffer.ofBytes s))
    (Source.unread source).length < UInt32.size ∧ t.Fits ∧ e.size < wordSize ∧
      (∃ head, VarInt.Shortest .int (Source.unread source).length head ∧
        (Draft.ofBytes [3]).embed source =
          ((Draft.ofBytes [3]).write (head ++ [1, 2, 1, 7]), source)) ∧
      answersAt 0 vs (visitEach vs [.draft e]).1 =
        (Source.useEach [.read Reader.buffer, .read Reader.u8] (AnyBuffer.draft e)).1.map some ∧
      (visitEach [.enter 0, .use 1 (.read (Reader.take 2)), .enter 1,
          .use 0 (.read (Reader.take 1)), .use 2 (.read (Reader.take 1))] [.frozen e.freeze]).1 =
        [opened [1, 2, 1, 7], octets [1, 2], opened [7], octets [5], octets [7]].map some := by
  intro deep inner source t e vs octets opened
  obtain ⟨hembed, hvisits, hdepth⟩ := embedding_disturbs_nothing
  have hinner : inner.content = [1, 2, 1, 7] := by decide +kernel
  have hheld : Source.unread source = inner.content := inner.unread_fill (Nat.le_refl 1)
  have hsource : Source.unread source = [1, 2, 1, 7] := hheld.trans hinner
  have hlength : (Source.unread source).length < UInt32.size := by
    rw [hsource]
    decide
  have hdeep : inner.Fits := ⟨⟨rfl, by decide⟩, trivial, trivial⟩
  have hfits : t.Fits := ⟨⟨hheld, hheld ▸ hlength⟩, hdeep, trivial⟩
  have hsize : e.size < wordSize := by
    have : e.size = 7 := by decide +kernel
    rw [this]
    decide
  refine ⟨hlength, hfits, hsize, ?_, (hvisits vs [.draft e] 0 (.draft e) rfl).1, ?_⟩
  · rw [← hsource]
    exact (hembed (.ofBytes [3]) source [] hlength).1
  · have hplan := (hdepth t (.ofBytes [3]) [] [0, 1, 1, 0, 2] hfits).2 hsize
    have hsteps : Nest.plan [0, 1, 1, 0, 2] [t] =
        [(.enter 0, opened (Source.unread source)), (.use 1 (.read (Reader.take 2)), octets [1, 2]),
          (.enter 1, opened [7]), (.use 0 (.read (Reader.take 1)), octets [5]),
          (.use 2 (.read (Reader.take 1)), octets [7])] := rfl
    rw [hsteps, hsource] at hplan
    exact hplan

end Switchboard
