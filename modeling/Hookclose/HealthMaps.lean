import Hookclose.HealthStores
import Hookclose.Runs

/-!
The stores of provider health are maps. A caller makes live records, changes them, saves
them under names and loads what was saved. What it is answered is what a map from names to
values would answer, whichever store it uses: a store never shares a record with its
caller, so a later change of a live record, or of a loaded one, is not seen by the store.
-/
namespace Hookclose.HealthMaps
open Hookclose.ProviderState Hookclose.Objects Hookclose.Programs Hookclose.HealthStores Hookclose.Runs
open Hookclose.Dictionaries (assign dictOf)

/-! ### Callers -/

/-- A record that a caller has: made by an operation, or loaded by one under a name. -/
structure Handle where
  operation : Nat
  name : Option String
  deriving DecidableEq

inductive Operation
  | create (health : ProviderHealth)
  | mutate (object : Handle) (health : ProviderHealth)
  | save (name : String) (object : Handle)
  | load (name : String)
  | loadAll

/-- What an operation returns. Dictionaries are equal when they have the same entries. -/
inductive Answer
  | done
  | loaded (health : Option ProviderHealth)
  | all (healths : String → Option ProviderHealth)
  | raised (exception : LoadError)

/-- What operation number `operation` hands over. -/
def handedOver {α : Type} (operation : Nat) (found : Option String → Option α) (object : Handle) : Option α :=
  if object.operation = operation then found object.name else none

structure Caller (σ : Type) where
  world : World σ
  held : Handle → Option Nat := fun _ => none
  answers : List Answer := []

variable {σ : Type}

/-- An operation has handed records over and returned. -/
def Caller.receive (s : Caller σ) (found : Option String → Option Nat) (answer : Answer) (w : World σ) : Caller σ where
  world := w
  held object := (handedOver s.answers.length found object).or (s.held object)
  answers := s.answers ++ [answer]

/-- An operation has handed no record over. -/
def Caller.finish (s : Caller σ) (answer : Answer) (w : World σ) : Caller σ := s.receive (fun _ => none) answer w

/-- One operation. A handle that stands for no record leaves everything as it is. -/
def perform (store : ProviderStateStore σ) (s : Caller σ) : Operation → Caller σ
  | .create health =>
    let allocated := s.world.memory.alloc health
    s.receive (fun name => if name = none then some allocated.1 else none) .done { s.world with memory := allocated.2 }
  | .mutate object health =>
    match s.held object with
    | none => s.finish .done s.world
    | some ref => s.finish .done { s.world with memory := s.world.memory.write ref health }
  | .save name object =>
    match s.held object with
    | none => s.finish .done s.world
    | some ref =>
      match store.save name ref s.world with
      | .ok _ w => s.finish .done w
      | .error exception w => s.finish (.raised exception) w
  | .load name =>
    match store.load name s.world with
    | .ok found w =>
      s.receive (fun asked => if asked = some name then found else none) (.loaded (found.map w.memory.content)) w
    | .error exception w => s.finish (.raised exception) w
  | .loadAll =>
    match store.loadAll s.world with
    | .ok found w =>
      s.receive (fun asked => asked.bind (fun name => Dictionaries.get name found))
        (.all (fun name => (Dictionaries.get name found).map w.memory.content)) w
    | .error exception w => s.finish (.raised exception) w

/-- The caller's session as the operations mean it: the value of each record that it has,
    and for each name the value at its latest save. -/
structure Session where
  objects : Handle → Option ProviderHealth := fun _ => none
  saved : String → Option ProviderHealth := fun _ => none
  answers : List Answer := []

def Session.receive (s : Session) (found : Option String → Option ProviderHealth) (answer : Answer) : Session where
  objects object := (handedOver s.answers.length found object).or (s.objects object)
  saved := s.saved
  answers := s.answers ++ [answer]

def intend (s : Session) : Operation → Session
  | .create health => s.receive (fun name => if name = none then some health else none) .done
  | .mutate object health =>
    match s.objects object with
    | none => s.receive (fun _ => none) .done
    | some _ => { s with objects := Function.update s.objects object (some health) }.receive (fun _ => none) .done
  | .save name object =>
    match s.objects object with
    | none => s.receive (fun _ => none) .done
    | some health => { s with saved := Function.update s.saved name (some health) }.receive (fun _ => none) .done
  | .load name => s.receive (fun asked => if asked = some name then s.saved name else none) (.loaded (s.saved name))
  | .loadAll => s.receive (fun asked => asked.bind s.saved) (.all s.saved)

/-! ### What a store has to do -/

/-- A store that keeps a map. `Holds` says which map it keeps in a memory, and `owns` which
    records are its own; nobody else has one of those, and what others do to their
    records leaves the map as it is. -/
structure Keeps (store : ProviderStateStore σ)
    (Holds : Memory ProviderHealth → σ → (String → Option ProviderHealth) → Prop) (owns : σ → Nat → Prop) : Prop where
  known : ∀ {m s saved ref}, Holds m s saved → owns s ref → ref < m.next
  frame : ∀ {before after s saved}, Holds before s saved → before.next ≤ after.next →
    (∀ ref, ref < before.next → owns s ref → after.content ref = before.content ref) → Holds after s saved
  save : ∀ {m s saved} name {ref}, Holds m s saved → ref < m.next → ∃ after t,
    store.save name ref ⟨m,s⟩ = .ok () ⟨after,t⟩ ∧ Kept m after ∧
      Holds after t (Function.update saved name (some (m.content ref))) ∧ ∀ own, owns t own → owns s own ∨ m.next ≤ own
  load : ∀ {m s saved} name, Holds m s saved → ∃ found after t,
    store.load name ⟨m,s⟩ = .ok found ⟨after,t⟩ ∧ Kept m after ∧ Holds after t saved ∧ owns t = owns s ∧
      (∀ ref, found = some ref → New m after ref ∧ ¬ owns t ref) ∧ found.map after.content = saved name
  loadAll : ∀ {m s saved}, Holds m s saved → ∃ found after t,
    store.loadAll ⟨m,s⟩ = .ok found ⟨after,t⟩ ∧ Kept m after ∧ Holds after t saved ∧ owns t = owns s ∧
      (∀ name ref, Dictionaries.get name found = some ref → New m after ref ∧ ¬ owns t ref) ∧
      (∀ one two ref, Dictionaries.get one found = some ref → Dictionaries.get two found = some ref → one = two) ∧
      ∀ name, (Dictionaries.get name found).map after.content = saved name

/-- A caller and its session: the same answers, and the same value of every record. -/
structure Follows (Holds : Memory ProviderHealth → σ → (String → Option ProviderHealth) → Prop) (owns : σ → Nat → Prop)
    (caller : Caller σ) (session : Session) : Prop where
  answers : caller.answers = session.answers
  names : Names caller.world.memory caller.held session.objects
  holds : Holds caller.world.memory caller.world.store session.saved
  foreign : ∀ object ref, caller.held object = some ref → ¬ owns caller.world.store ref

section
variable {store : ProviderStateStore σ} {Holds : Memory ProviderHealth → σ → (String → Option ProviderHealth) → Prop}
  {owns : σ → Nat → Prop} {caller : Caller σ} {session : Session}

/-- The records that an operation hands over have new names, and the store owns none. -/
theorem Follows.received (follows : Follows Holds owns caller session) {w : World σ} {saved : String → Option ProviderHealth}
    {found : Option String → Option Nat} {values : Option String → Option ProviderHealth} (answer : Answer)
    (kept : Kept caller.world.memory w.memory) (holds : Holds w.memory w.store saved)
    (fresh : ∀ name ref, found name = some ref → New caller.world.memory w.memory ref ∧ ¬ owns w.store ref)
    (apart : ∀ one two ref, found one = some ref → found two = some ref → one = two)
    (value : ∀ name, (found name).map w.memory.content = values name)
    (foreign : ∀ object ref, caller.held object = some ref → ¬ owns w.store ref) :
    Follows Holds owns (caller.receive found answer w) ({ session with saved := saved }.receive values answer) := by
  have handed : ∀ object ref, handedOver caller.answers.length found object = some ref →
      object.operation = caller.answers.length ∧ found object.name = some ref := by
    intro object ref given
    unfold handedOver at given
    split_ifs at given with same
    exact ⟨same,given⟩
  have extended := follows.names.extend kept (fun object ref given => (fresh _ ref (handed object ref given).2).1)
    (fun one two ref first second => by
      obtain ⟨numbered,first⟩ := handed one ref first
      obtain ⟨same,second⟩ := handed two ref second
      have named := apart _ _ ref first second
      cases one
      cases two
      simp_all)
  refine ⟨?_,?_,holds,?_⟩
  · show caller.answers ++ [answer] = session.answers ++ [answer]
    rw [follows.answers]
  · have values_ :
        (fun object => ((handedOver caller.answers.length found object).map w.memory.content).or (session.objects object)) =
        ({ session with saved := saved }.receive values answer).objects := by
      funext object
      simp only [Session.receive,handedOver,follows.answers]
      split_ifs
      · rw [value]
      · rfl
    rw [← values_]
    exact extended
  · intro object ref given
    rcases Option.or_eq_some_iff.mp given with new | ⟨_,old⟩
    · exact (fresh _ ref (handed object ref new).2).2
    · exact foreign object ref old

/-- An operation that hands nothing over. -/
theorem Follows.finished (follows : Follows Holds owns caller session) {w : World σ} {saved : String → Option ProviderHealth}
    (answer : Answer) (kept : Kept caller.world.memory w.memory) (holds : Holds w.memory w.store saved)
    (foreign : ∀ object ref, caller.held object = some ref → ¬ owns w.store ref) :
    Follows Holds owns (caller.finish answer w) ({ session with saved := saved }.receive (fun _ => none) answer) := by
  apply follows.received answer kept holds
  · intro name ref given
    cases given
  · intro one two ref given
    cases given
  · intro name
    rfl
  · exact foreign

/-- A caller that changes one of its records changes no other, and not the map. -/
theorem Follows.written (keeps : Keeps store Holds owns) (follows : Follows Holds owns caller session) {object : Handle}
    {ref : Nat} (held : caller.held object = some ref) (health : ProviderHealth) :
    Follows Holds owns { caller with world := { caller.world with memory := caller.world.memory.write ref health } }
      { session with objects := Function.update session.objects object (some health) } := by
  have others : ∀ own, own < caller.world.memory.next → owns caller.world.store own →
      (caller.world.memory.write ref health).content own = caller.world.memory.content own := by
    intro own _ owned
    have apart : own ≠ ref := by
      rintro rfl
      exact follows.foreign object own held owned
    exact write_other apart _ health
  exact ⟨follows.answers,follows.names.write held health,keeps.frame follows.holds (Nat.le_refl _) others,follows.foreign⟩

/-- An operation on a record that the caller does not have does nothing. -/
theorem Follows.idle (follows : Follows Holds owns caller session) :
    Follows Holds owns (caller.finish .done caller.world) (session.receive (fun _ => none) .done) :=
  follows.finished .done (Kept.refl _) follows.holds follows.foreign

theorem create_follows (keeps : Keeps store Holds owns) (follows : Follows Holds owns caller session)
    (health : ProviderHealth) : Follows Holds owns (perform store caller (.create health)) (intend session (.create health)) := by
  have kept := kept_alloc caller.world.memory health
  have fresh := new_alloc caller.world.memory health
  have holds : Holds (caller.world.memory.alloc health).2 caller.world.store session.saved :=
    keeps.frame follows.holds kept.grown (fun own known _ => kept.same own known)
  apply follows.received .done kept holds
  · intro name ref given
    split_ifs at given
    cases given
    refine ⟨fresh,?_⟩
    intro owned
    have known := keeps.known follows.holds owned
    simp at known
  · intro one two ref first second
    split_ifs at first second with same other
    rw [same,other]
  · intro name
    split_ifs
    · simp
    · rfl
  · exact follows.foreign

theorem mutate_follows (keeps : Keeps store Holds owns) (follows : Follows Holds owns caller session) (object : Handle)
    (health : ProviderHealth) :
    Follows Holds owns (perform store caller (.mutate object health)) (intend session (.mutate object health)) := by
  cases held : caller.held object with
  | none =>
    simp only [perform,intend,held,follows.names.absent held]
    exact follows.idle
  | some ref =>
    simp only [perform,intend,held,follows.names.value held]
    have written := follows.written keeps held health
    exact written.finished .done (Kept.refl _) written.holds written.foreign

theorem save_follows (keeps : Keeps store Holds owns) (follows : Follows Holds owns caller session) (name : String)
    (object : Handle) :
    Follows Holds owns (perform store caller (.save name object)) (intend session (.save name object)) := by
  cases held : caller.held object with
  | none =>
    simp only [perform,intend,held,follows.names.absent held]
    exact follows.idle
  | some ref =>
    obtain ⟨after,t,saved,kept,holds,owned⟩ := keeps.save name follows.holds (follows.names.known object ref held)
    simp only [perform,intend,held,follows.names.value held]
    rw [saved]
    apply follows.finished .done kept holds
    intro other own given owns_
    rcases owned own owns_ with old | new
    · exact follows.foreign other own given old
    · have known := follows.names.known other own given
      omega

theorem load_follows (keeps : Keeps store Holds owns) (follows : Follows Holds owns caller session) (name : String) :
    Follows Holds owns (perform store caller (.load name)) (intend session (.load name)) := by
  obtain ⟨found,after,t,loaded,kept,holds,owned,fresh,value⟩ := keeps.load name follows.holds
  have answer : perform store caller (.load name) = caller.receive
      (fun asked => if asked = some name then found else none) (.loaded (session.saved name)) ⟨after,t⟩ := by
    simp only [perform]
    rw [loaded,← value]
  rw [answer]
  apply follows.received _ kept holds
  · intro asked ref given
    split_ifs at given
    exact fresh ref given
  · intro one two ref first second
    split_ifs at first second with same other
    rw [same,other]
  · intro asked
    split_ifs
    · exact value
    · rfl
  · intro object ref given
    rw [owned]
    exact follows.foreign object ref given

theorem loadAll_follows (keeps : Keeps store Holds owns) (follows : Follows Holds owns caller session) :
    Follows Holds owns (perform store caller .loadAll) (intend session .loadAll) := by
  obtain ⟨found,after,t,loaded,kept,holds,owned,fresh,apart,value⟩ := keeps.loadAll follows.holds
  have answer : perform store caller .loadAll = caller.receive
      (fun asked => asked.bind (fun name => Dictionaries.get name found)) (.all session.saved) ⟨after,t⟩ := by
    simp only [perform]
    rw [loaded]
    simp only [value]
  rw [answer]
  apply follows.received _ kept holds
  · intro asked ref given
    obtain ⟨name,_,given⟩ := Option.bind_eq_some_iff.mp given
    exact fresh name ref given
  · intro one two ref first second
    obtain ⟨first_,rfl,first⟩ := Option.bind_eq_some_iff.mp first
    obtain ⟨second_,rfl,second⟩ := Option.bind_eq_some_iff.mp second
    rw [apart first_ second_ ref first second]
  · intro asked
    cases asked with
    | none => rfl
    | some name => exact value name
  · intro object ref given
    rw [owned]
    exact follows.foreign object ref given

/-- One operation. -/
theorem perform_follows (keeps : Keeps store Holds owns) (follows : Follows Holds owns caller session)
    (operation : Operation) : Follows Holds owns (perform store caller operation) (intend session operation) := by
  cases operation with
  | create health => exact create_follows keeps follows health
  | mutate object health => exact mutate_follows keeps follows object health
  | save name object => exact save_follows keeps follows name object
  | load name => exact load_follows keeps follows name
  | loadAll => exact loadAll_follows keeps follows

/-- A caller of a store that keeps a map is answered as its session says. -/
theorem run_follows (keeps : Keeps store Holds owns) (follows : Follows Holds owns caller session)
    (operations : List Operation) :
    Follows Holds owns (run (perform store) caller operations) (run intend session operations) := by
  have selected := run_selected (Follows Holds owns) (fun _ => true) id
    (fun _ _ operation related _ => perform_follows keeps related operation) (fun _ _ _ _ skipped => by cases skipped)
    operations follows
  simpa using selected

end

/-! ### Making records -/

/-- New records that hold these values, by the same names. -/
structure Made (before after : Memory ProviderHealth) (values : List (String × ProviderHealth))
    (found : List (String × Nat)) : Prop where
  kept : Kept before after
  names : found.map Prod.fst = values.map Prod.fst
  fresh : ∀ entry ∈ found, New before after entry.2
  apart : (found.map Prod.snd).Nodup
  holds : ∀ name, (Dictionaries.get name found).map after.content = Dictionaries.get name values

theorem made_nil (m : Memory ProviderHealth) : Made m m [] [] :=
  ⟨Kept.refl m,rfl,by simp,by simp,fun _ => rfl⟩

theorem Made.cons {m after : Memory ProviderHealth} {name : String} {health : ProviderHealth}
    {values : List (String × ProviderHealth)} {found : List (String × Nat)}
    (made : Made (m.alloc health).2 after values found) :
    Made m after ((name,health) :: values) ((name,m.next) :: found) := by
  have kept := kept_alloc m health
  have first := (new_alloc m health).later made.kept
  refine ⟨kept.trans made.kept,by simp [made.names],?_,?_,?_⟩
  · intro entry member
    rcases List.mem_cons.mp member with rfl | later
    · exact first
    · exact (made.fresh entry later).earlier kept
  · rw [List.map_cons,List.nodup_cons]
    refine ⟨?_,made.apart⟩
    intro member
    obtain ⟨entry,later,same⟩ := List.mem_map.mp member
    have late := (made.fresh entry later).1
    simp only [alloc_next] at late
    omega
  · intro other
    have value : after.content m.next = health := by
      rw [made.kept.same m.next (by simp),alloc_self]
    simp only [Dictionaries.get]
    split_ifs
    · rw [Option.map_some,value]
    · exact made.holds other

/-- Records with different names are different. -/
theorem Made.separate {before after : Memory ProviderHealth} {values : List (String × ProviderHealth)}
    {found : List (String × Nat)} (made : Made before after values found) {one two : String} {ref : Nat}
    (first : Dictionaries.get one found = some ref) (second : Dictionaries.get two found = some ref) : one = two := by
  have same := List.inj_on_of_nodup_map made.apart (Dictionaries.mem_of_get first) (Dictionaries.mem_of_get second) rfl
  exact congrArg Prod.fst same

/-- A loop that makes one record for each item, and leaves the store as it is. -/
theorem mapM_made {β : Type} {f : β → Program σ (String × Nat)} {Makes : β → String × ProviderHealth → Prop}
    {items : List β} {values : List (String × ProviderHealth)} (paired : List.Forall₂ Makes items values)
    {m : Memory ProviderHealth} {t : σ}
    (each : ∀ item value, Makes item value → ∀ later, Kept m later →
      f item ⟨later,t⟩ = .ok (value.1,later.next) ⟨(later.alloc value.2).2,t⟩) :
    ∃ found after, items.mapM f ⟨m,t⟩ = .ok found ⟨after,t⟩ ∧ Made m after values found := by
  induction paired generalizing m with
  | nil => exact ⟨[],m,rfl,made_nil m⟩
  | @cons item value items values makes _ ih =>
    have first := each item value makes m (Kept.refl m)
    obtain ⟨found,after,looped,made⟩ := @ih (m.alloc value.2).2 (by
      intro other next makes later kept
      exact each other next makes later ((kept_alloc m value.2).trans kept))
    refine ⟨(value.1,m.next) :: found,after,?_,made.cons⟩
    rw [List.mapM_cons,bind_of_ok first,bind_of_ok looped]
    rfl

/-! ### The store of copies -/

/-- The copies of the store hold the saved values. -/
structure Copied (m : Memory ProviderHealth) (copies : List (String × Nat))
    (saved : String → Option ProviderHealth) : Prop where
  distinct : (copies.map Prod.fst).Nodup
  known : ∀ entry ∈ copies, entry.2 < m.next
  holds : ∀ name, (Dictionaries.get name copies).map m.content = saved name

def OwnsCopy (copies : List (String × Nat)) (ref : Nat) : Prop := ∃ entry ∈ copies, entry.2 = ref

theorem Copied.frame {before after : Memory ProviderHealth} {copies : List (String × Nat)}
    {saved : String → Option ProviderHealth} (copied : Copied before copies saved) (grown : before.next ≤ after.next)
    (same : ∀ ref, ref < before.next → OwnsCopy copies ref → after.content ref = before.content ref) :
    Copied after copies saved := by
  refine ⟨copied.distinct,fun entry member => Nat.lt_of_lt_of_le (copied.known entry member) grown,?_⟩
  intro name
  rw [← copied.holds name]
  cases found : Dictionaries.get name copies with
  | none => rfl
  | some ref =>
    have member := Dictionaries.mem_of_get found
    have kept := same ref (copied.known _ member) ⟨_,member,rfl⟩
    rw [Option.map_some,Option.map_some,kept]

theorem Copied.kept {before after : Memory ProviderHealth} {copies : List (String × Nat)}
    {saved : String → Option ProviderHealth} (copied : Copied before copies saved) (kept : Kept before after) :
    Copied after copies saved := copied.frame kept.grown (fun ref known _ => kept.same ref known)

/-- Nobody has a copy that the store did not own before. -/
theorem Copied.unowned {before : Memory ProviderHealth} {copies : List (String × Nat)}
    {saved : String → Option ProviderHealth} (copied : Copied before copies saved) {after : Memory ProviderHealth}
    {ref : Nat} (fresh : New before after ref) : ¬ OwnsCopy copies ref := by
  rintro ⟨entry,member,rfl⟩
  have known := copied.known entry member
  have late := fresh.1
  omega

theorem load_copy (name : String) (m : Memory ProviderHealth) (copies : List (String × Nat)) :
    inMemoryProviderStateStore.load name ⟨m,copies⟩ =
      match Dictionaries.get name copies with
      | none => .ok none ⟨m,copies⟩
      | some ref => .ok (some m.next) ⟨(m.alloc (m.content ref)).2,copies⟩ := by
  show (match Dictionaries.get name copies with | none => _ | some _ => _ : Program _ _) ⟨m,copies⟩ = _
  cases Dictionaries.get name copies <;> rfl

theorem snapshots_made {m : Memory ProviderHealth} {copies : List (String × Nat)}
    (known : ∀ entry ∈ copies, entry.2 < m.next) :
    ∃ found after, inMemoryProviderStateStore.loadAll ⟨m,copies⟩ = .ok (dictOf found) ⟨after,copies⟩ ∧
      Made m after (copies.map (fun entry => (entry.1,m.content entry.2))) found := by
  have paired : List.Forall₂ (fun entry value => entry.2 < m.next ∧ value = (entry.1,m.content entry.2)) copies
      (copies.map (fun entry => (entry.1,m.content entry.2))) := by
    rw [List.forall₂_map_right_iff,List.forall₂_same]
    intro entry member
    exact ⟨known entry member,rfl⟩
  have looped := @mapM_made (List (String × Nat)) _ (fun entry => do return (entry.1,← snapshot entry.2)) _ _ _ paired
    m copies (by
      rintro entry _ ⟨old,rfl⟩ later kept
      show EStateM.Result.ok _ _ = _
      rw [kept.same entry.2 old]
      rfl)
  obtain ⟨found,after,looped,made⟩ := looped
  refine ⟨found,after,?_,made⟩
  show (do
    let copies ← copies.mapM (fun entry => do return (entry.1,← snapshot entry.2))
    return dictOf copies : Program _ _) ⟨m,copies⟩ = _
  rw [bind_of_ok looped]
  rfl

theorem inMemory_keeps : Keeps inMemoryProviderStateStore Copied OwnsCopy where
  known copied owned := by
    obtain ⟨entry,member,rfl⟩ := owned
    exact copied.known entry member
  frame copied grown same := copied.frame grown same
  save {m s saved} name ref copied known := by
    have kept := kept_alloc m (m.content ref)
    have fresh := new_alloc m (m.content ref)
    refine ⟨_,_,rfl,kept,⟨?_,?_,?_⟩,?_⟩
    · exact Dictionaries.assign_distinct copied.distinct
    · intro entry member
      rcases Dictionaries.mem_assign member with rfl | old
      · exact fresh.2
      · exact (copied.kept kept).known entry old
    · intro other
      rw [Dictionaries.get_assign]
      by_cases same : other = name
      · subst same
        simp
      · rw [if_neg same,Function.update_of_ne same,← (copied.kept kept).holds other]
    · rintro own ⟨entry,member,rfl⟩
      rcases Dictionaries.mem_assign member with rfl | old
      · exact .inr (Nat.le_refl _)
      · exact .inl ⟨entry,old,rfl⟩
  load {m s saved} name copied := by
    have loaded := load_copy name m s
    cases stored : Dictionaries.get name s with
    | none =>
      rw [stored] at loaded
      refine ⟨none,m,s,loaded,Kept.refl m,copied,rfl,?_,?_⟩
      · intro ref given
        cases given
      · rw [← copied.holds name,stored]
    | some ref =>
      have kept := kept_alloc m (m.content ref)
      have fresh := new_alloc m (m.content ref)
      rw [stored] at loaded
      refine ⟨some m.next,_,s,loaded,kept,copied.kept kept,rfl,?_,?_⟩
      · intro own given
        cases given
        exact ⟨fresh,copied.unowned fresh⟩
      · rw [← copied.holds name,stored]
        simp
  loadAll {m s saved} copied := by
    obtain ⟨found,after,loaded,made⟩ := snapshots_made copied.known
    have distinct : (found.map Prod.fst).Nodup := by
      rw [made.names,List.map_map]
      exact copied.distinct
    rw [Dictionaries.dictOf_distinct distinct] at loaded
    refine ⟨found,after,s,loaded,made.kept,copied.kept made.kept,rfl,?_,fun _ _ _ => made.separate,?_⟩
    · intro name ref given
      have fresh := made.fresh _ (Dictionaries.mem_of_get given)
      exact ⟨fresh,copied.unowned fresh⟩
    · intro name
      rw [made.holds,← copied.holds name]
      exact Dictionaries.get_map m.content name s

/-! ### The store of JSON texts -/

/-- What a client of Redis is relied on for: a hash maps each field to the value that was
    last set, and a listing has each field once, in any order. -/
structure KeepsHashes (client : HashClient σ) (fields : σ → (key field : String) → Option String) : Prop where
  hset : ∀ key field value s, fields (client.hset key field value s) =
    Function.update (fields s) key (Function.update (fields s key) field (some value))
  hget : ∀ key field s, fields (client.hget key field s).2 = fields s ∧
    Option.Rel Carries (client.hget key field s).1 (fields s key field)
  hgetall : ∀ key s, fields (client.hgetall key s).2 = fields s ∧ ∃ entries : List (String × String),
    List.Forall₂ (fun reply entry => Carries reply.1 entry.1 ∧ Carries reply.2 entry.2) (client.hgetall key s).1 entries ∧
      (entries.map Prod.fst).Nodup ∧ ∀ field value, (field,value) ∈ entries ↔ fields s key field = some value

section
variable {isoformat : Instant → String} {fromisoformat : String → Option Instant} {float : String → String × FloatValue}
  {client : HashClient σ} {fields : σ → String → String → Option String} {key : String}

/-- The fields of the hash are the texts of the saved values. -/
def Recorded (isoformat : Instant → String) (fields : σ → String → String → Option String) (key : String)
    (_ : Memory ProviderHealth) (s : σ) (saved : String → Option ProviderHealth) : Prop :=
  ∀ name, fields s key name = (saved name).map (fun health => JsonText.dumps (.dict (healthToDict isoformat health)))

theorem load_field (name : String) (m : Memory ProviderHealth) (s : σ) :
    (redisProviderStateStore isoformat fromisoformat float client key).load name ⟨m,s⟩ =
      match (client.hget key name s).1 with
      | none => .ok none ⟨m,(client.hget key name s).2⟩
      | some raw =>
        match decodeHealth fromisoformat float raw with
        | .ok health => .ok (some m.next) ⟨(m.alloc health).2,(client.hget key name s).2⟩
        | .error exception => .error exception ⟨m,(client.hget key name s).2⟩ := by
  show (match (client.hget key name s).1 with | none => _ | some _ => _ : Program _ _) ⟨m,(client.hget key name s).2⟩ = _
  cases (client.hget key name s).1 with
  | none => rfl
  | some raw =>
    show EStateM.bind (lift (decodeHealth fromisoformat float raw)) _ _ = _
    unfold EStateM.bind lift
    cases decoded : decodeHealth fromisoformat float raw <;> simp only [decoded]
    rfl

/-- The listing stands for the saved values, each under its name once. -/
theorem listed_values {s : σ} {m : Memory ProviderHealth} {saved : String → Option ProviderHealth}
    (recorded : Recorded isoformat fields key m s saved) {raw : List (RawReply × RawReply)} {entries : List (String × String)}
    (carried : List.Forall₂ (fun reply entry => Carries reply.1 entry.1 ∧ Carries reply.2 entry.2) raw entries)
    (distinct : (entries.map Prod.fst).Nodup)
    (listed : ∀ field value, (field,value) ∈ entries ↔ fields s key field = some value) :
    ∃ values : List (String × ProviderHealth),
      List.Forall₂ (fun reply value => Carries reply.1 value.1 ∧
        Carries reply.2 (JsonText.dumps (.dict (healthToDict isoformat value.2)))) raw values ∧
      (values.map Prod.fst).Nodup ∧ ∀ name, Dictionaries.get name values = saved name := by
  have known : ∀ entry ∈ entries, ∃ health, saved entry.1 = some health ∧
      entry.2 = JsonText.dumps (.dict (healthToDict isoformat health)) := by
    intro entry member
    have field := (listed entry.1 entry.2).mp member
    rw [recorded entry.1,Option.map_eq_some_iff] at field
    obtain ⟨health,value,text⟩ := field
    exact ⟨health,value,text.symm⟩
  have paired : ∃ values : List (String × ProviderHealth),
      List.Forall₂ (fun reply value => Carries reply.1 value.1 ∧
        Carries reply.2 (JsonText.dumps (.dict (healthToDict isoformat value.2)))) raw values ∧
      values.map Prod.fst = entries.map Prod.fst ∧ ∀ value ∈ values, saved value.1 = some value.2 := by
    clear distinct listed
    induction carried with
    | nil => exact ⟨[],.nil,rfl,by simp⟩
    | @cons reply entry raw entries carries _ ih =>
      obtain ⟨health,value,text⟩ := known entry (by simp)
      obtain ⟨values,paired,names,stored⟩ := ih (fun other member => known other (by simp [member]))
      refine ⟨(entry.1,health) :: values,.cons ⟨carries.1,?_⟩ paired,by simp [names],?_⟩
      · rw [← text]
        exact carries.2
      · simpa [value] using stored
  obtain ⟨values,paired,names,stored⟩ := paired
  have distinct_ : (values.map Prod.fst).Nodup := by
    rw [names]
    exact distinct
  refine ⟨values,paired,distinct_,?_⟩
  intro name
  apply Option.ext
  intro health
  rw [Dictionaries.get_some distinct_]
  constructor
  · intro member
    exact stored _ member
  · intro value
    have entry := (listed name (JsonText.dumps (.dict (healthToDict isoformat health)))).mpr (by
      rw [recorded name,value]
      rfl)
    have named : name ∈ values.map Prod.fst := by
      rw [names]
      exact List.mem_map.mpr ⟨_,entry,rfl⟩
    obtain ⟨other,member,rfl⟩ := List.mem_map.mp named
    have same := stored other member
    rw [value] at same
    cases same
    exact member

section
variable {m : Memory ProviderHealth} {s : σ} {saved : String → Option ProviderHealth}

theorem redis_save (hashes : KeepsHashes client fields) (name : String) {ref : Nat}
    (recorded : Recorded isoformat fields key m s saved) : ∃ t,
      (redisProviderStateStore isoformat fromisoformat float client key).save name ref ⟨m,s⟩ = .ok () ⟨m,t⟩ ∧
        Recorded isoformat fields key m t (Function.update saved name (some (m.content ref))) := by
  refine ⟨_,rfl,?_⟩
  intro other
  rw [hashes.hset,Function.update_self]
  by_cases same : other = name
  · rw [same,Function.update_self,Function.update_self,Option.map_some]
  · rw [Function.update_of_ne same,Function.update_of_ne same,recorded other]

/-- A field is loaded as a new record of the saved value. -/
theorem redis_load (roundTrip : ∀ instant, fromisoformat (isoformat instant) = some instant)
    (hashes : KeepsHashes client fields) (name : String) (recorded : Recorded isoformat fields key m s saved) :
    ∃ found after t, (redisProviderStateStore isoformat fromisoformat float client key).load name ⟨m,s⟩ = .ok found ⟨after,t⟩ ∧
      Kept m after ∧ Recorded isoformat fields key after t saved ∧ (∀ ref, found = some ref → New m after ref) ∧
      found.map after.content = saved name := by
  obtain ⟨same,answered⟩ := hashes.hget key name s
  have kept : Recorded isoformat fields key m (client.hget key name s).2 saved := by
    intro other
    rw [same]
    exact recorded other
  have loaded := @load_field σ isoformat fromisoformat float client key name m s
  rw [recorded name] at answered
  cases value : saved name with
  | none =>
    rw [value,Option.map_none] at answered
    cases asked : (client.hget key name s).1 with
    | some raw =>
      rw [asked] at answered
      cases answered
    | none =>
      rw [asked] at loaded
      refine ⟨none,m,_,loaded,Kept.refl m,kept,?_,rfl⟩
      intro ref given
      cases given
  | some health =>
    rw [value,Option.map_some] at answered
    cases asked : (client.hget key name s).1 with
    | none =>
      rw [asked] at answered
      cases answered
    | some raw =>
      rw [asked] at answered loaded
      have carries := Option.rel_some_some.mp answered
      simp only [decodeHealth_saved roundTrip carries] at loaded
      refine ⟨some m.next,_,_,loaded,kept_alloc m health,kept,?_,by simp⟩
      intro ref given
      cases given
      exact new_alloc m health

/-- The listing is loaded as new records of the saved values. -/
theorem redis_loadAll (roundTrip : ∀ instant, fromisoformat (isoformat instant) = some instant)
    (hashes : KeepsHashes client fields) (recorded : Recorded isoformat fields key m s saved) :
    ∃ found after t values, (redisProviderStateStore isoformat fromisoformat float client key).loadAll ⟨m,s⟩ = .ok found ⟨after,t⟩ ∧
      Recorded isoformat fields key after t saved ∧ Made m after values found ∧
      ∀ name, Dictionaries.get name values = saved name := by
  obtain ⟨same,entries,carried,distinct,listed⟩ := hashes.hgetall key s
  obtain ⟨values,paired,separate,value⟩ := listed_values recorded carried distinct listed
  obtain ⟨found,after,looped,made⟩ := @mapM_made σ (RawReply × RawReply) (fun entry => do
    let decoded ← lift (decodeEntry fromisoformat float entry)
    return (decoded.1,← construct decoded.2)) _ _ _ paired m (client.hgetall key s).2 (by
      rintro entry health ⟨named,carries⟩ later _
      have decoded : decodeEntry fromisoformat float entry = .ok health := by
        simp only [decodeEntry,named.decode,decodeHealth_saved roundTrip carries]
        rfl
      simp only [decoded]
      rfl)
  have names : (found.map Prod.fst).Nodup := by
    rw [made.names]
    exact separate
  have loaded : (redisProviderStateStore isoformat fromisoformat float client key).loadAll ⟨m,s⟩ =
      .ok found ⟨after,(client.hgetall key s).2⟩ := by
    show (do
      let loaded ← (client.hgetall key s).1.mapM (fun entry => do
        let decoded ← lift (decodeEntry fromisoformat float entry)
        return (decoded.1,← construct decoded.2))
      return dictOf loaded : Program _ _) ⟨m,(client.hgetall key s).2⟩ = _
    rw [bind_of_ok looped]
    show EStateM.Result.ok (dictOf found) _ = _
    rw [Dictionaries.dictOf_distinct names]
  refine ⟨found,after,_,values,loaded,?_,made,value⟩
  intro other
  rw [same]
  exact recorded other

end

theorem redis_keeps (roundTrip : ∀ instant, fromisoformat (isoformat instant) = some instant)
    (hashes : KeepsHashes client fields) :
    Keeps (redisProviderStateStore isoformat fromisoformat float client key) (Recorded isoformat fields key)
      (fun _ _ => False) where
  known _ owned := owned.elim
  frame recorded _ _ := recorded
  save {m s saved} name ref recorded _ := by
    obtain ⟨t,done,kept⟩ := @redis_save σ isoformat fromisoformat float client fields key m s saved hashes name ref recorded
    exact ⟨m,t,done,Kept.refl m,kept,fun _ owned => owned.elim⟩
  load name recorded := by
    obtain ⟨found,after,t,loaded,kept,recordedAfter,fresh,value⟩ := redis_load roundTrip hashes name recorded
    exact ⟨found,after,t,loaded,kept,recordedAfter,rfl,fun ref given => ⟨fresh ref given,id⟩,value⟩
  loadAll recorded := by
    obtain ⟨found,after,t,values,loaded,recordedAfter,made,value⟩ := redis_loadAll roundTrip hashes recorded
    refine ⟨found,after,t,loaded,made.kept,recordedAfter,rfl,?_,fun _ _ _ => made.separate,?_⟩
    · intro name ref given
      exact ⟨made.fresh _ (Dictionaries.mem_of_get given),id⟩
    · intro name
      rw [made.holds,value]

end

/-! ### Both stores -/

/-- A caller that has no record yet. -/
def Caller.start (s : σ) : Caller σ where
  world := ⟨⟨0,fun _ => {}⟩,s⟩

theorem start_follows {Holds : Memory ProviderHealth → σ → (String → Option ProviderHealth) → Prop} {owns : σ → Nat → Prop}
    {s : σ} (holds : Holds ⟨0,fun _ => {}⟩ s (fun _ => none)) : Follows Holds owns (Caller.start s) {} := by
  refine ⟨rfl,⟨?_,?_,fun _ => rfl⟩,holds,?_⟩
  · intro object ref given
    cases given
  · intro one two ref given
    cases given
  · intro object ref given
    cases given

variable {isoformat : Instant → String} {fromisoformat : String → Option Instant} {client : HashClient σ}
  {fields : σ → String → String → Option String}

/-- Both stores answer every sequence of operations as the map from each name to the value
    at its latest save. -/
theorem stores_agree (float : String → String × FloatValue) (key : String)
    (roundTrip : ∀ instant, fromisoformat (isoformat instant) = some instant) (hashes : KeepsHashes client fields) {s : σ}
    (empty : ∀ name, fields s key name = none) (operations : List Operation) :
    (run (perform inMemoryProviderStateStore) (Caller.start []) operations).answers = (run intend {} operations).answers ∧
    (run (perform (redisProviderStateStore isoformat fromisoformat float client key)) (Caller.start s) operations).answers =
      (run intend {} operations).answers := by
  have copied : Copied ⟨0,fun _ => {}⟩ [] (fun _ => none) := ⟨by simp,by simp,fun _ => rfl⟩
  have recorded : Recorded isoformat fields key ⟨0,fun _ => {}⟩ s (fun _ => none) := fun name => empty name
  have first := run_follows inMemory_keeps (start_follows copied) operations
  have keeps := @redis_keeps σ isoformat fromisoformat float client fields key roundTrip hashes
  have second := run_follows keeps (start_follows recorded) operations
  exact ⟨first.answers,second.answers⟩

/-! A server that answers in bytes and lists the latest field first. -/

structure HashTables where
  entries : String → List (String × String)
  distinct : ∀ key, ((entries key).map Prod.fst).Nodup

def HashTables.hset (key field value : String) (s : HashTables) : HashTables where
  entries := Function.update s.entries key (assign field value (s.entries key))
  distinct other := by
    by_cases same : other = key
    · rw [same,Function.update_self]
      exact Dictionaries.assign_distinct (s.distinct key)
    · rw [Function.update_of_ne same]
      exact s.distinct other

def hashTables : HashClient HashTables where
  hset := HashTables.hset
  hget key field s := ((Dictionaries.get field (s.entries key)).map (fun text => .bytes text.toUTF8),s)
  hgetall key s := ((s.entries key).reverse.map (fun entry => (.bytes entry.1.toUTF8,.bytes entry.2.toUTF8)),s)

theorem hashTables_keep : KeepsHashes hashTables (fun s key field => Dictionaries.get field (s.entries key)) where
  hset key field value s := by
    funext other name
    by_cases same : other = key
    · subst same
      simp [hashTables,HashTables.hset,Dictionaries.get_assign,Function.update_apply]
    · simp [hashTables,HashTables.hset,same]
  hget key field s := by
    refine ⟨rfl,?_⟩
    show Option.Rel Carries ((Dictionaries.get field (s.entries key)).map _) _
    cases Dictionaries.get field (s.entries key) with
    | none => exact .none
    | some text => exact .some (Or.inr rfl)
  hgetall key s := by
    refine ⟨rfl,(s.entries key).reverse,?_,?_,?_⟩
    · show List.Forall₂ _ ((s.entries key).reverse.map _) _
      rw [List.forall₂_map_left_iff,List.forall₂_same]
      exact fun _ _ => ⟨.inr rfl,.inr rfl⟩
    · rw [List.map_reverse,List.nodup_reverse]
      exact s.distinct key
    · intro field value
      rw [List.mem_reverse,Dictionaries.get_some (s.distinct key)]

/-- New year's midnight of 2026 as `isoformat` prints it; any other instant by its number. -/
def sampleIsoformat (instant : Instant) : String :=
  if instant = 1767225600000000 then "2026-01-01T00:00:00+00:00" else toString instant

def sampleFromisoformat (text : String) : Option Instant :=
  if text = "2026-01-01T00:00:00+00:00" then some 1767225600000000 else Text.parseInt text

theorem sample_roundTrip (instant : Instant) : sampleFromisoformat (sampleIsoformat instant) = some instant := by
  unfold sampleIsoformat
  split_ifs with midnight
  · rw [midnight]
    rfl
  · have read := JsonText.parseInt_toString instant
    have other : toString instant ≠ "2026-01-01T00:00:00+00:00" := by
      intro same
      rw [same] at read
      cases read
    rw [sampleFromisoformat,if_neg other]
    exact read

/-- A limited provider, saved and then reset by its owner. -/
def limited : ProviderHealth where
  status := .rateLimited
  cooldownUntil := some 1767225600000000
  totalRequests := 4
  totalFailures := 1
  lastError := some "429 «too many requests»"

theorem limited_loaded :
    let operations := [.create limited,.save "claude" ⟨0,none⟩,.mutate ⟨0,none⟩ {},.load "claude"]
    (run (perform inMemoryProviderStateStore) (Caller.start []) operations).answers =
      [.done,.done,.done,.loaded (some limited)] ∧
    (run (perform (redisProviderStateStore sampleIsoformat sampleFromisoformat (fun text => (text,.nan)) hashTables
      "providers:health")) (Caller.start ⟨fun _ => [],by simp⟩) operations).answers =
      [.done,.done,.done,.loaded (some limited)] :=
  stores_agree (fun text => (text,.nan)) "providers:health" sample_roundTrip hashTables_keep (fun _ => rfl)
    [.create limited,.save "claude" ⟨0,none⟩,.mutate ⟨0,none⟩ {},.load "claude"]

end Hookclose.HealthMaps
