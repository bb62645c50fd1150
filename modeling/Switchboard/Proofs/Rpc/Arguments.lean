import Switchboard.Proofs.Rpc.Repertoire

/-!
# Arguments by their places

Each argument has a buffer of its own. What is left of the arguments after some calls for the
next one is settled by the number of the calls (`Called.eq_after`), so that a call is told of the
buffer at its own place and of no other, whatever the calls before it asked for and left unread.
A handler sees its arguments only through such calls and the number that remain (`Inquiry`), and
what it comes to is settled by the buffers at their places.
-/

namespace Switchboard

namespace Arguments

variable {α : Type} {bs cs : List Buffer} {k : Nat} {a c : Arguments}

def after (bs : List Buffer) (k : Nat) : Arguments := { left := bs.drop k, position := k }

/-- What the call of this number, counted from one, is told of the buffer at its place. -/
def told (r : Reader α) (number : Nat) : Option Buffer → Except Causes α
  | none => .error [s!"missing argument {number}"]
  | some b =>
    match (Source.read r b).1 with
    | .ok v => .ok v
    | .error e => .error (s!"malformed argument {number}" :: e.causes)

/-- The arguments `bs` after `k` calls for the next one, each with any reader. -/
inductive Called (bs : List Buffer) : Nat → Arguments → Prop
  | fresh : Called bs 0 { left := bs }
  | next {k : Nat} {a : Arguments} {α : Type} (r : Reader α) (h : Called bs k a) :
      Called bs (k + 1) (a.read r).2

/-- A call for the next argument is told of the buffer at its place. -/
theorem read_after (bs : List Buffer) (k : Nat) (r : Reader α) :
    (after bs k).read r = (told r (k + 1) bs[k]?, after bs (k + 1)) := by
  have hplace : bs[k]? = (bs.drop k).head? := List.head?_drop.symm
  have hrest : bs.drop (k + 1) = (bs.drop k).tail := List.tail_drop.symm
  simp only [read, after, hplace, hrest]
  cases bs.drop k with
  | nil => rfl
  | cons b left =>
    simp only [List.head?_cons, List.tail_cons, told]
    cases (Source.read r b).1 <;> rfl

/-- So the arguments are those after as many calls, with whatever readers. -/
theorem Called.eq_after (h : Called bs k a) : a = after bs k := by
  induction h with
  | fresh => rfl
  | next r h ih => rw [ih, read_after]

theorem remaining_after (bs : List Buffer) (k : Nat) :
    (after bs k).remaining = bs.length - k := List.length_drop

/-- The octets that were read before do not matter. -/
theorem told_congr {o o' : Option Buffer} (h : o.map Buffer.unread = o'.map Buffer.unread)
    (r : Reader α) (number : Nat) : told r number o = told r number o' := by
  cases o with
  | none =>
    cases o' with
    | none => rfl
    | some b => cases h
  | some b =>
    cases o' with
    | none => cases h
    | some b' =>
      have hread : (Source.read r b).1 = (Source.read r b').1 :=
        congrArg (fun s => (r.on s).1) (Option.some.inj h)
      simp only [told, hread]

end Arguments

/-- Work on arguments that asks for the next one, with any reader, and for the number that remain,
and goes on by what it is told. -/
inductive Inquiry (β : Type) : Type 1 where
  | done (outcome : β)
  | next {α : Type} (r : Reader α) (go : Except Causes α → Inquiry β)
  | remaining (go : Nat → Inquiry β)

namespace Inquiry

variable {β : Type}

def run : Inquiry β → Arguments → β × Arguments
  | done outcome, a => (outcome, a)
  | next r go, a => (go (a.read r).1).run (a.read r).2
  | remaining go, a => (go a.remaining).run a

/-- What it comes to from the call at place `k` on, when each call is told of the buffer at its
own place. -/
def placed (bs : List Buffer) : Inquiry β → (k : Nat) → β
  | done outcome, _ => outcome
  | next r go, k => (go (Arguments.told r (k + 1) bs[k]?)).placed bs (k + 1)
  | remaining go, k => (go (bs.length - k)).placed bs k

/-- Work that only asks comes to what the places say. -/
theorem run_after (bs : List Buffer) (q : Inquiry β) (k : Nat) :
    (q.run (Arguments.after bs k)).1 = q.placed bs k := by
  induction q generalizing k with
  | done outcome => rfl
  | next r go ih => simp only [run, placed, Arguments.read_after, ih]
  | remaining go ih => simp only [run, placed, Arguments.remaining_after, ih]

def handler (q : Inquiry (Except Fault Buffer)) : Handler := fun a => (q.run a).1

end Inquiry

namespace Surroundings

/-- Each invocation runs the handler of its method on its own arguments, however many were
invoked before, and these may include itself. -/
theorem invokeEach_recording (t : Handlers) (taken : Packet → Except ChannelError Unit)
    (is : List Invocation) (r : Record) :
    (is.mapM (recording t taken).invoke).run r =
      (is.map t.invoke, { r with ran := r.ran ++ is.flatMap (runs t) }) := by
  induction is generalizing r with
  | nil =>
    rw [List.mapM_nil, List.map_nil, List.flatMap_nil, List.append_nil]
    rfl
  | cons i is ih =>
    have hrest := ih { r with ran := r.ran ++ runs t i }
    rw [List.append_assoc] at hrest
    calc ((i :: is).mapM (recording t taken).invoke).run r
      _ = (t.invoke i :: ((is.mapM (recording t taken).invoke).run
              { r with ran := r.ran ++ runs t i }).1,
            ((is.mapM (recording t taken).invoke).run { r with ran := r.ran ++ runs t i }).2) := by
          rw [List.mapM_cons, StateT.run_bind, invoke_recording]
          rfl
      _ = _ := by rw [hrest, List.map_cons, List.flatMap_cons]

end Surroundings

/-- After `k` calls for the next argument, whatever they asked for, came to and left unread,
`n - k` arguments remain, and the next call is told of the buffer at its own place alone: the
value that is read from it, that it is malformed with the error of reading it, or that it is
missing. So arguments that agree there are told alike, the outcome of a handler follows from the
buffers at their places, and invocations, one after the other and the same one again, run their
handlers each on all of its own arguments. -/
theorem arguments_isolated :
    (∀ (bs : List Buffer) (k : Nat) (a : Arguments), Arguments.Called bs k a →
      a.remaining = bs.length - k ∧
      ∀ (α : Type) (r : Reader α), (a.read r).2.remaining = bs.length - (k + 1) ∧
        (bs.length ≤ k → (a.read r).1 = .error [s!"missing argument {k + 1}"]) ∧
        ∀ b, bs[k]? = some b →
          (∀ v, (Source.read r b).1 = .ok v → (a.read r).1 = .ok v) ∧
          ∀ e, (Source.read r b).1 = .error e →
            (a.read r).1 = .error (s!"malformed argument {k + 1}" :: e.causes)) ∧
    (∀ (bs cs : List Buffer) (k : Nat) (a c : Arguments), Arguments.Called bs k a →
      Arguments.Called cs k c → bs[k]?.map Buffer.unread = cs[k]?.map Buffer.unread →
      ∀ (α : Type) (r : Reader α), (a.read r).1 = (c.read r).1) ∧
    (∀ (t : Handlers) (i : Invocation) (q : Inquiry (Except Fault Buffer)),
      t.find? i.target i.method = some q.handler →
        t.invoke i = i.told (q.placed i.arguments 0)) ∧
    ∀ (t : Handlers) (taken : Packet → Except ChannelError Unit) (is : List Invocation),
      (is.mapM (Surroundings.recording t taken).invoke).run {} =
        (is.map t.invoke, { ran := is.flatMap (Surroundings.runs t) }) := by
  refine ⟨fun bs k a ha => ?_, fun bs cs k a c ha hc h α r => ?_, fun t i q hfind => ?_,
    fun t taken is => ?_⟩
  · obtain rfl := ha.eq_after
    refine ⟨Arguments.remaining_after bs k, fun α r => ?_⟩
    rw [Arguments.read_after]
    refine ⟨Arguments.remaining_after bs (k + 1), fun hk => ?_,
      fun b hb => ⟨fun v hv => ?_, fun e he => ?_⟩⟩
    · rw [List.getElem?_eq_none hk]
      rfl
    · simp only [hb, Arguments.told, hv]
    · simp only [hb, Arguments.told, he]
  · obtain rfl := ha.eq_after
    obtain rfl := hc.eq_after
    rw [Arguments.read_after, Arguments.read_after]
    exact Arguments.told_congr h r (k + 1)
  · have hplaced := q.run_after i.arguments 0
    rw [Handlers.invoke_eq, hfind]
    exact congrArg i.told hplaced
  · exact Surroundings.invokeEach_recording t taken is {}

/-- A text that is asked for as a number, a number that was read in part and has an octet behind
it, and a third argument that is not there. -/
theorem arguments_isolated_misread :
    let number : Buffer := { bytes := [9, 0, 0, 0, 5, 7], cursor := 1 }
    let bs : List Buffer := [.ofBytes [1, 0x78], number]
    let a := (Arguments.read Reader.u64 { left := bs }).2
    let c := (Arguments.read Reader.u8 { left := [number, .ofBytes [0, 0, 0, 5, 7], number] }).2
    let q : Inquiry (Except Fault Buffer) := .next Reader.u64 fun _ => .next Reader.u32 fun
      | .ok n => .done (.ok (.ofBytes (Ty.u32.encode n)))
      | .error causes => .done (.error (.failed causes))
    let t := ({} : Handlers).register "Shop" "order" q.handler
    let i : Invocation := { target := "Shop", method := "order", arguments := bs }
    (Arguments.read Reader.u64 { left := bs }).1 =
        .error ["malformed argument 1", "Buffer underflow: needed 8 bytes, 2 remaining"] ∧
      a.remaining = 1 ∧ (a.read Reader.u32).1 = .ok 5 ∧
      (a.read Reader.u32).1 = (c.read Reader.u32).1 ∧
      ((a.read Reader.u32).2.read Reader.bool).1 = .error ["missing argument 3"] ∧
      t.invoke i = .ok (.ofBytes [0, 0, 0, 5]) ∧
      ([i, i].mapM (Surroundings.recording t fun _ => .ok ()).invoke).run {} =
        ([t.invoke i, t.invoke i],
          { ran := [(q.handler, { left := bs }), (q.handler, { left := bs })] }) := by
  intro number bs a c q t i
  obtain ⟨htold, halike, hinvoke, hruns⟩ := arguments_isolated
  have ha : Arguments.Called bs 1 a := .next Reader.u64 .fresh
  have hc : Arguments.Called [number, .ofBytes [0, 0, 0, 5, 7], number] 1 c :=
    .next Reader.u8 .fresh
  have hfind : t.find? i.target i.method = some q.handler := by
    rw [Handlers.find?_register, if_pos rfl]
  have hran : Surroundings.runs t i = [(q.handler, { left := bs })] := by
    rw [Surroundings.runs, hfind]
    rfl
  have hfirst := ((htold bs 0 _ .fresh).2 UInt64 Reader.u64).2.2 _ rfl
  have hsecond := ((htold bs 1 a ha).2 UInt32 Reader.u32).2.2 _ rfl
  have hthird := ((htold bs 2 _ (ha.next Reader.u32)).2 Bool Reader.bool).2.1 (by decide)
  have houtcome : i.told (q.placed i.arguments 0) = .ok (.ofBytes [0, 0, 0, 5]) := by
    decide +kernel
  refine ⟨hfirst.2 _ rfl, (htold bs 1 a ha).1, hsecond.1 5 rfl, halike _ _ 1 a c ha hc rfl _ _,
    hthird, (hinvoke t i q hfind).trans houtcome, ?_⟩
  rw [hruns t (fun _ => .ok ()) [i, i], List.flatMap_cons, List.flatMap_cons, hran]
  rfl

end Switchboard
