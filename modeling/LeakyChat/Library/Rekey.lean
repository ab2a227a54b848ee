/-
A two-party rekeying protocol.  Either party may offer a public value at any
time under the next number; the other party accepts an offer whose number is
new to it, or equal to its own with an older stamp, and answers it.  Messages
are never consumed, so they may be lost, delayed, reordered and repeated.  Two
parties that both hold a key hold the same one.
-/
import LeakyChat.Library.Transition
import Mathlib.Data.Set.Insert
import Mathlib.Logic.Function.Basic
import Mathlib.Order.Basic

namespace Rekey

open Transition

inductive Side where
  | left
  | right
deriving DecidableEq, Repr

def Side.other : Side → Side
  | .left => .right
  | .right => .left

@[simp]
theorem Side.other_other (side : Side) : side.other.other = side := by
  cases side <;> rfl

theorem Side.other_ne (side : Side) : side.other ≠ side := by
  cases side <;> decide

theorem Side.eq_other_of_ne {side x : Side} (hne : x ≠ side) : x = side.other := by
  cases side <;> cases x <;> first | rfl | exact absurd rfl hne

/-- A party has a key exactly while it is in agreement. -/
inductive Phase (K : Type) where
  | idle
  | waiting
  | agreed (key : K)
deriving DecidableEq, Repr

/-- One party: the number and stamp of its latest exchange, and its secret. -/
structure Party (T X K : Type) where
  seq : Nat
  stamp : T
  phase : Phase K
  secret : X

structure Offer (T B : Type) where
  seq : Nat
  stamp : T
  value : B

structure Answer (B : Type) where
  seq : Nat
  value : B

/-- Both parties, and everything each has ever sent. -/
structure State (T X K B : Type) where
  party : Side → Party T X K
  offers : Side → Set (Offer T B)
  answers : Side → Set (Answer B)

variable {T X K B : Type} (pub : X → B) (agree : X → B → K)

/-- Whether a party takes up an offer: a newer number, or its own number with
an older stamp. -/
def Party.Accepts [LT T] (p : Party T X K) (o : Offer T B) : Prop :=
  p.seq < o.seq ∨ o.seq = p.seq ∧ o.stamp < p.stamp

/-- The party after an offer of its own. -/
def Party.offering (p : Party T X K) (stamp : T) (secret : X) : Party T X K :=
  { p with seq := p.seq + 1, stamp := stamp, phase := .waiting, secret := secret }

/-- The party after it took up an offer with the given secret. -/
def Party.accepting (o : Offer T B) (secret : X) : Party T X K :=
  ⟨o.seq, o.stamp, .agreed (agree secret o.value), secret⟩

/-- The party after the answer to its own offer. -/
def Party.confirming (p : Party T X K) (a : Answer B) : Party T X K :=
  { p with phase := .agreed (agree p.secret a.value) }

inductive Step [LT T] : State T X K B → Side → State T X K B → Prop
  | offer {s : State T X K B} (side : Side) (stamp : T) (secret : X) :
      Step s side
        { s with
          party := Function.update s.party side
            ((s.party side).offering stamp secret)
          offers := Function.update s.offers side
            (insert ⟨(s.party side).seq + 1, stamp, pub secret⟩ (s.offers side)) }
  | accept {s : State T X K B} (side : Side) (o : Offer T B) (secret : X)
      (hmem : o ∈ s.offers side.other) (haccept : (s.party side).Accepts o) :
      Step s side
        { s with
          party := Function.update s.party side (Party.accepting agree o secret)
          answers := Function.update s.answers side
            (insert ⟨o.seq, pub secret⟩ (s.answers side)) }
  | confirm {s : State T X K B} (side : Side) (a : Answer B)
      (hmem : a ∈ s.answers side.other) (hphase : (s.party side).phase = .waiting)
      (hseq : a.seq = (s.party side).seq) :
      Step s side
        { s with
          party := Function.update s.party side
            ((s.party side).confirming agree a) }

/-- Both parties start idle at number zero and have sent nothing. -/
def system [LT T] : System (State T X K B) Side where
  init s := ∀ side, (s.party side).seq = 0 ∧ (s.party side).phase = .idle ∧
    s.offers side = ∅ ∧ s.answers side = ∅
  step := Step pub agree

/-- What one party's own messages say about it, and about the messages of its
peer they go back to. -/
structure SideInv [LT T] (p : Party T X K) (offers peerOffers : Set (Offer T B))
    (answers peerAnswers : Set (Answer B)) : Prop where
  offer_le : ∀ o ∈ offers, o.seq ≤ p.seq
  offer_unique : ∀ o ∈ offers, ∀ o' ∈ offers, o.seq = o'.seq → o = o'
  waiting_offer : p.phase = .waiting → ⟨p.seq, p.stamp, pub p.secret⟩ ∈ offers
  answer_le : ∀ a ∈ answers, a.seq ≤ p.seq
  /-- An answer goes back to an offer that beat the party's own of that number. -/
  answer_offer : ∀ a ∈ answers, ∃ o ∈ peerOffers, o.seq = a.seq ∧
    ∀ own ∈ offers, own.seq = a.seq → o.stamp < own.stamp
  /-- An answer under the current number is what the current key came from. -/
  answer_current : ∀ a ∈ answers, a.seq = p.seq → a.value = pub p.secret ∧
    ∃ o ∈ peerOffers, o.seq = p.seq ∧ o.stamp = p.stamp ∧
      p.phase = .agreed (agree p.secret o.value)
  /-- A key comes from an answer of the party's own or of its peer. -/
  agreed_origin : ∀ key, p.phase = .agreed key →
    (∃ a ∈ answers, a.seq = p.seq) ∨
    ⟨p.seq, p.stamp, pub p.secret⟩ ∈ offers ∧
      ∃ a ∈ peerAnswers, a.seq = p.seq ∧ key = agree p.secret a.value
  own_stamp : ∀ o ∈ offers, o.seq = p.seq → (∀ a ∈ answers, a.seq ≠ p.seq) →
    o.stamp = p.stamp

variable {pub agree}

/-- Whatever the peer sends besides leaves a party's own invariant alone. -/
theorem SideInv.mono [LT T] {p : Party T X K}
    {offers peerOffers peerOffers' : Set (Offer T B)}
    {answers peerAnswers peerAnswers' : Set (Answer B)}
    (hinv : SideInv pub agree p offers peerOffers answers peerAnswers)
    (hoffers : peerOffers ⊆ peerOffers') (hanswers : peerAnswers ⊆ peerAnswers') :
    SideInv pub agree p offers peerOffers' answers peerAnswers' where
  offer_le := hinv.offer_le
  offer_unique := hinv.offer_unique
  waiting_offer := hinv.waiting_offer
  answer_le := hinv.answer_le
  answer_offer a ha := by
    obtain ⟨o, ho, hrest⟩ := hinv.answer_offer a ha
    exact ⟨o, hoffers ho, hrest⟩
  answer_current a ha hseq := by
    obtain ⟨hvalue, o, ho, hrest⟩ := hinv.answer_current a ha hseq
    exact ⟨hvalue, o, hoffers ho, hrest⟩
  agreed_origin key hphase := by
    rcases hinv.agreed_origin key hphase with hown | ⟨hoffer, a, ha, hrest⟩
    · exact Or.inl hown
    · exact Or.inr ⟨hoffer, a, hanswers ha, hrest⟩
  own_stamp := hinv.own_stamp

theorem SideInv.init [LT T] {p : Party T X K} (hphase : p.phase = .idle)
    {peerOffers : Set (Offer T B)} {peerAnswers : Set (Answer B)} :
    SideInv pub agree p ∅ peerOffers ∅ peerAnswers where
  offer_le := by simp
  offer_unique := by simp
  waiting_offer := by simp [hphase]
  answer_le := by simp
  answer_offer := by simp
  answer_current := by simp
  agreed_origin := by simp [hphase]
  own_stamp := by simp

/-- An offer takes a number above everything the party has sent, so nothing
old bears on it. -/
theorem SideInv.offer [LT T] {p : Party T X K}
    {offers peerOffers : Set (Offer T B)} {answers peerAnswers : Set (Answer B)}
    (hinv : SideInv pub agree p offers peerOffers answers peerAnswers)
    (stamp : T) (secret : X) :
    SideInv pub agree (p.offering stamp secret)
      (insert ⟨p.seq + 1, stamp, pub secret⟩ offers) peerOffers answers
      peerAnswers where
  offer_le := by
    rintro o (rfl | ho)
    · exact Nat.le_refl _
    · exact Nat.le_succ_of_le (hinv.offer_le o ho)
  offer_unique := by
    rintro o (rfl | ho) o' (rfl | ho') hseq
    · rfl
    · have hle := hinv.offer_le o' ho'
      simp only at hseq
      omega
    · have hle := hinv.offer_le o ho
      simp only at hseq
      omega
    · exact hinv.offer_unique o ho o' ho' hseq
  waiting_offer := fun _ => Set.mem_insert _ _
  answer_le a ha := Nat.le_succ_of_le (hinv.answer_le a ha)
  answer_offer a ha := by
    obtain ⟨o, ho, hseq, hbeat⟩ := hinv.answer_offer a ha
    refine ⟨o, ho, hseq, ?_⟩
    rintro own (rfl | hown) hown'
    · have hle := hinv.answer_le a ha
      simp only at hown'
      omega
    · exact hbeat own hown hown'
  answer_current a ha hseq := by
    have hle := hinv.answer_le a ha
    simp only [Party.offering] at hseq
    omega
  agreed_origin key hphase := by simp [Party.offering] at hphase
  own_stamp := by
    rintro o (rfl | ho) hseq _
    · rfl
    · have hle := hinv.offer_le o ho
      simp only [Party.offering] at hseq
      omega

/-- No number is answered twice: the second offer of that number would have
to be the first one again, whose stamp the party now has. -/
theorem SideInv.not_answered [Preorder T] {p : Party T X K}
    {offers peerOffers : Set (Offer T B)} {answers peerAnswers : Set (Answer B)}
    (hinv : SideInv pub agree p offers peerOffers answers peerAnswers)
    (hunique : ∀ o ∈ peerOffers, ∀ o' ∈ peerOffers, o.seq = o'.seq → o = o')
    {o : Offer T B} (ho : o ∈ peerOffers) (haccept : p.Accepts o) :
    ∀ a ∈ answers, a.seq ≠ o.seq := by
  intro a ha hseq
  have hle := hinv.answer_le a ha
  rcases haccept with hnew | ⟨hsame, hstamp⟩
  · omega
  · obtain ⟨_, o', ho', hseq', hstamp', _⟩ :=
      hinv.answer_current a ha (hseq.trans hsame)
    have heq := hunique o' ho' o ho (hseq'.trans hsame.symm)
    rw [← heq, hstamp'] at hstamp
    exact lt_irrefl _ hstamp

theorem SideInv.accept [Preorder T] {p : Party T X K}
    {offers peerOffers : Set (Offer T B)} {answers peerAnswers : Set (Answer B)}
    (hinv : SideInv pub agree p offers peerOffers answers peerAnswers)
    (hunique : ∀ o ∈ peerOffers, ∀ o' ∈ peerOffers, o.seq = o'.seq → o = o')
    {o : Offer T B} (ho : o ∈ peerOffers) (haccept : p.Accepts o) (secret : X) :
    SideInv pub agree (Party.accepting agree o secret) offers peerOffers
      (insert ⟨o.seq, pub secret⟩ answers) peerAnswers := by
  have hfresh := hinv.not_answered hunique ho haccept
  have hle : p.seq ≤ o.seq := by
    rcases haccept with hnew | ⟨hsame, _⟩
    · exact Nat.le_of_lt hnew
    · exact Nat.le_of_eq hsame.symm
  -- An own offer of the accepted number still has the stamp the party had.
  have hbeat : ∀ own ∈ offers, own.seq = o.seq → o.stamp < own.stamp := by
    intro own hown hseq
    have hown' := hinv.offer_le own hown
    rcases haccept with hnew | ⟨hsame, hstamp⟩
    · omega
    · have hstamp' := hinv.own_stamp own hown (hseq.trans hsame)
        fun a ha => hsame ▸ hfresh a ha
      rwa [hstamp']
  exact {
    offer_le := fun o' ho' => Nat.le_trans (hinv.offer_le o' ho') hle
    offer_unique := hinv.offer_unique
    waiting_offer := fun hphase => by simp [Party.accepting] at hphase
    answer_le := by
      rintro a (rfl | ha)
      · exact Nat.le_refl _
      · exact Nat.le_trans (hinv.answer_le a ha) hle
    answer_offer := by
      rintro a (rfl | ha)
      · exact ⟨o, ho, rfl, hbeat⟩
      · exact hinv.answer_offer a ha
    answer_current := by
      rintro a (rfl | ha) hseq
      · exact ⟨rfl, o, ho, rfl, rfl, rfl⟩
      · exact absurd hseq (hfresh a ha)
    agreed_origin := fun _ _ => Or.inl ⟨_, Set.mem_insert _ _, rfl⟩
    own_stamp := fun o' _ _ hnone => absurd rfl (hnone _ (Set.mem_insert _ _)) }

theorem SideInv.confirm [LT T] {p : Party T X K}
    {offers peerOffers : Set (Offer T B)} {answers peerAnswers : Set (Answer B)}
    (hinv : SideInv pub agree p offers peerOffers answers peerAnswers)
    {a : Answer B} (ha : a ∈ peerAnswers) (hphase : p.phase = .waiting)
    (hseq : a.seq = p.seq) :
    SideInv pub agree (p.confirming agree a) offers peerOffers answers
      peerAnswers where
  offer_le := hinv.offer_le
  offer_unique := hinv.offer_unique
  waiting_offer hwaiting := by simp [Party.confirming] at hwaiting
  answer_le := hinv.answer_le
  answer_offer := hinv.answer_offer
  answer_current own hown hown' := by
    obtain ⟨_, _, _, _, _, hagreed⟩ := hinv.answer_current own hown hown'
    rw [hphase] at hagreed
    cases hagreed
  agreed_origin key hagreed := by
    have hkey : agree p.secret a.value = key := Phase.agreed.inj hagreed
    exact Or.inr ⟨hinv.waiting_offer hphase, a, ha, hseq, hkey.symm⟩
  own_stamp := hinv.own_stamp

/-- The invariant of both parties together. -/
def Inv [LT T] (pub : X → B) (agree : X → B → K) (s : State T X K B) : Prop :=
  ∀ side, SideInv pub agree (s.party side) (s.offers side) (s.offers side.other)
    (s.answers side) (s.answers side.other)

/-- A step of one side is judged there; the other side only sees its peer's
messages grow. -/
theorem Inv.of_side [LT T] {s t : State T X K B} (hinv : Inv pub agree s)
    (side : Side)
    (hside : SideInv pub agree (t.party side) (t.offers side)
      (t.offers side.other) (t.answers side) (t.answers side.other))
    (hparty : t.party side.other = s.party side.other)
    (hoffers : t.offers side.other = s.offers side.other)
    (hanswers : t.answers side.other = s.answers side.other)
    (hoffersMono : s.offers side ⊆ t.offers side)
    (hanswersMono : s.answers side ⊆ t.answers side) : Inv pub agree t := by
  intro x
  by_cases hx : x = side
  · rw [hx]
    exact hside
  · rw [Side.eq_other_of_ne hx, hparty, hoffers, hanswers, Side.other_other]
    have hother := hinv side.other
    rw [Side.other_other] at hother
    exact hother.mono hoffersMono hanswersMono

theorem inv_step [Preorder T] {s t : State T X K B} {side : Side}
    (hinv : Inv pub agree s) (hstep : Step pub agree s side t) :
    Inv pub agree t := by
  have hne := side.other_ne
  cases hstep with
  | offer stamp secret =>
      apply hinv.of_side side <;>
        simp only [Function.update_self, Function.update_of_ne hne]
      · exact (hinv side).offer stamp secret
      · exact Set.subset_insert _ _
      · exact Set.Subset.rfl
  | accept o secret hmem haccept =>
      apply hinv.of_side side <;>
        simp only [Function.update_self, Function.update_of_ne hne]
      · have hunique := (hinv side.other).offer_unique
        exact (hinv side).accept hunique hmem haccept secret
      · exact Set.Subset.rfl
      · exact Set.subset_insert _ _
  | confirm a hmem hphase hseq =>
      apply hinv.of_side side <;>
        simp only [Function.update_self, Function.update_of_ne hne]
      · exact (hinv side).confirm hmem hphase hseq
      · exact Set.Subset.rfl
      · exact Set.Subset.rfl

theorem reachable_inv [Preorder T] {s : State T X K B}
    (hreach : Reachable (system pub agree) s) : Inv pub agree s := by
  apply hreach.invariant (P := Inv pub agree)
  · intro start hstart side
    obtain ⟨_, hphase, hoffers, hanswers⟩ := hstart side
    rw [hoffers, hanswers]
    exact SideInv.init hphase
  · intro s side t hinv hstep
    exact inv_step hinv hstep

/-- A party holding a key is at a number its peer has reached. -/
theorem Inv.seq_le [LT T] {s : State T X K B} (hinv : Inv pub agree s)
    {side : Side} {key : K} (hagreed : (s.party side).phase = .agreed key) :
    (s.party side).seq ≤ (s.party side.other).seq := by
  rcases (hinv side).agreed_origin key hagreed with
    ⟨a, ha, hseq⟩ | ⟨_, a, ha, hseq, _⟩
  · obtain ⟨o, ho, hoseq, _⟩ := (hinv side).answer_offer a ha
    have hle := (hinv side.other).offer_le o ho
    omega
  · have hle := (hinv side.other).answer_le a ha
    omega

/-- The party that answered and the party that was answered share stamp and
key. -/
theorem Inv.same_key_of_answered [Preorder T] {s : State T X K B}
    (hinv : Inv pub agree s)
    (hcomm : ∀ x y, agree x (pub y) = agree y (pub x)) (side : Side) {key key' : K}
    (hseq : (s.party side).seq = (s.party side.other).seq)
    (hagreed : (s.party side).phase = .agreed key)
    (hanswered : ∃ a ∈ s.answers side, a.seq = (s.party side).seq)
    (hoffer : ⟨(s.party side.other).seq, (s.party side.other).stamp,
      pub (s.party side.other).secret⟩ ∈ s.offers side.other)
    (hkey : ∃ a ∈ s.answers side, a.seq = (s.party side.other).seq ∧
      key' = agree (s.party side.other).secret a.value) :
    (s.party side).stamp = (s.party side.other).stamp ∧ key = key' := by
  obtain ⟨a, ha, haseq⟩ := hanswered
  obtain ⟨_, o, ho, hoseq, hostamp, hokey⟩ := (hinv side).answer_current a ha haseq
  have heq := (hinv side.other).offer_unique o ho _ hoffer (hoseq.trans hseq)
  obtain ⟨a', ha', haseq', hakey⟩ := hkey
  obtain ⟨hvalue, _⟩ := (hinv side).answer_current a' ha' (haseq'.trans hseq.symm)
  rw [hagreed] at hokey
  constructor
  · rw [← hostamp, heq]
  · rw [Phase.agreed.inj hokey, heq, hakey, hvalue]
    exact hcomm _ _

/-- Both sides cannot have answered one number: each would have beaten the
other's stamp. -/
theorem Inv.not_both_answered [Preorder T] {s : State T X K B}
    (hinv : Inv pub agree s) (side : Side) {a b : Answer B}
    (ha : a ∈ s.answers side) (hb : b ∈ s.answers side.other)
    (hseq : a.seq = b.seq) : False := by
  obtain ⟨o, ho, hoseq, hobeat⟩ := (hinv side).answer_offer a ha
  obtain ⟨o', ho', hoseq', hobeat'⟩ := (hinv side.other).answer_offer b hb
  rw [Side.other_other] at ho'
  have hlt := hobeat o' ho' (hoseq'.trans hseq.symm)
  have hlt' := hobeat' o ho (hoseq.trans hseq)
  exact lt_asymm hlt hlt'

/-- A party with a key takes up offers of greater numbers only: it has answered the
one of its own number, or its own was answered as the earlier of the two. -/
theorem Inv.accepts_newer [Preorder T] {s : State T X K B} (hinv : Inv pub agree s)
    {side : Side} {key : K} (hagreed : (s.party side).phase = .agreed key) {o : Offer T B}
    (ho : o ∈ s.offers side.other) (haccept : (s.party side).Accepts o) :
    (s.party side).seq < o.seq := by
  rcases haccept with hnew | ⟨hsame, hstamp⟩
  · exact hnew
  · rcases (hinv side).agreed_origin key hagreed with ⟨a, ha, hseq⟩ | ⟨hown, a, ha, hseq, _⟩
    · have hunique := (hinv side.other).offer_unique
      exact absurd (hseq.trans hsame.symm)
        ((hinv side).not_answered hunique ho (Or.inr ⟨hsame, hstamp⟩) a ha)
    · obtain ⟨o', ho', hoseq, hbeat⟩ := (hinv side.other).answer_offer a ha
      rw [Side.other_other] at ho'
      have heq := (hinv side).offer_unique o' ho' _ hown (hoseq.trans hseq)
      have hlt := hbeat o ho (hsame.trans hseq.symm)
      rw [heq] at hlt
      exact absurd hstamp (lt_asymm hlt)

/-- Agreement: two parties that both hold a key hold the same one, under the
same number and stamp. -/
theorem Inv.agreement [Preorder T] {s : State T X K B} (hinv : Inv pub agree s)
    (hcomm : ∀ x y, agree x (pub y) = agree y (pub x)) {key key' : K}
    (hleft : (s.party .left).phase = .agreed key)
    (hright : (s.party .right).phase = .agreed key') :
    (s.party .left).seq = (s.party .right).seq ∧
      (s.party .left).stamp = (s.party .right).stamp ∧ key = key' := by
  have hseq : (s.party .left).seq = (s.party .right).seq :=
    Nat.le_antisymm (hinv.seq_le hleft) (hinv.seq_le hright)
  refine ⟨hseq, ?_⟩
  rcases (hinv .left).agreed_origin key hleft with
    hanswered | ⟨hoffer, hconfirmed⟩
  · rcases (hinv .right).agreed_origin key' hright with
      hanswered' | ⟨hoffer', hconfirmed'⟩
    · obtain ⟨a, ha, haseq⟩ := hanswered
      obtain ⟨b, hb, hbseq⟩ := hanswered'
      exact (hinv.not_both_answered .left ha hb
        (haseq.trans (hseq.trans hbseq.symm))).elim
    · exact hinv.same_key_of_answered hcomm .left hseq hleft hanswered hoffer'
        hconfirmed'
  · rcases (hinv .right).agreed_origin key' hright with
      hanswered' | ⟨hoffer', hconfirmed'⟩
    · obtain ⟨hstamp, hkey⟩ := hinv.same_key_of_answered hcomm .right hseq.symm
        hright hanswered' hoffer hconfirmed
      exact ⟨hstamp.symm, hkey.symm⟩
    · obtain ⟨a, ha, haseq, _⟩ := hconfirmed
      obtain ⟨b, hb, hbseq, _⟩ := hconfirmed'
      exact (hinv.not_both_answered .left hb ha
        (hbseq.trans (hseq.symm.trans haseq.symm))).elim

/-- Agreement, whichever side one looks from. -/
theorem Inv.agreement_of_side [Preorder T] {s : State T X K B} (hinv : Inv pub agree s)
    (hcomm : ∀ x y, agree x (pub y) = agree y (pub x)) {side : Side} {key key' : K}
    (hagreed : (s.party side).phase = .agreed key)
    (hagreed' : (s.party side.other).phase = .agreed key') :
    (s.party side).seq = (s.party side.other).seq ∧
      (s.party side).stamp = (s.party side.other).stamp ∧ key = key' := by
  cases side with
  | left => exact hinv.agreement hcomm hagreed hagreed'
  | right =>
      obtain ⟨hseq, hstamp, hkey⟩ := hinv.agreement hcomm hagreed' hagreed
      exact ⟨hseq.symm, hstamp.symm, hkey.symm⟩

/-- No side answers a number twice. -/
def AnswersUnique (s : State T X K B) : Prop :=
  ∀ side, ∀ a ∈ s.answers side, ∀ a' ∈ s.answers side, a.seq = a'.seq → a = a'

theorem answersUnique_step [Preorder T] {s t : State T X K B} {side : Side}
    (hinv : Inv pub agree s) (hunique : AnswersUnique s) (hstep : Step pub agree s side t) :
    AnswersUnique t := by
  cases hstep with
  | offer stamp secret => exact hunique
  | accept o secret hmem haccept =>
      have hfresh := (hinv side).not_answered (hinv side.other).offer_unique hmem haccept
      intro x
      by_cases hx : x = side
      · subst hx
        simp only [Function.update_self]
        rintro a (rfl | ha) a' (rfl | ha') hseq
        · rfl
        · exact absurd hseq.symm (hfresh a' ha')
        · exact absurd hseq (hfresh a ha)
        · exact hunique x a ha a' ha' hseq
      · simp only [Function.update_of_ne hx]
        exact hunique x
  | confirm a hmem hphase hseq => exact hunique

theorem reachable_answersUnique [Preorder T] {s : State T X K B}
    (hreach : Reachable (system pub agree) s) : AnswersUnique s := by
  suffices hboth : Inv pub agree s ∧ AnswersUnique s from hboth.2
  apply hreach.invariant (P := fun s => Inv pub agree s ∧ AnswersUnique s)
  · intro start hstart
    refine ⟨reachable_inv (Reachable.of_init hstart), fun side => ?_⟩
    rw [(hstart side).2.2.2]
    simp
  · rintro s side t ⟨hinv, hunique⟩ hstep
    exact ⟨inv_step hinv hstep, answersUnique_step hinv hunique hstep⟩

/-- The side has been in agreement on this key under this number: it answered an offer of
its peer, or the peer answered one of its own. -/
def Keyed (pub : X → B) (agree : X → B → K) (s : State T X K B) (side : Side) (n : Nat)
    (key : K) : Prop :=
  ∃ secret,
    (∃ o ∈ s.offers side.other, o.seq = n ∧ ⟨n, pub secret⟩ ∈ s.answers side ∧
      key = agree secret o.value) ∨
    ∃ a ∈ s.answers side.other, a.seq = n ∧ (∃ stamp, ⟨n, stamp, pub secret⟩ ∈ s.offers side) ∧
      key = agree secret a.value

theorem Keyed.mono {s t : State T X K B} {side : Side} {n : Nat} {key : K}
    (hkeyed : Keyed pub agree s side n key) (hoffers : ∀ x, s.offers x ⊆ t.offers x)
    (hanswers : ∀ x, s.answers x ⊆ t.answers x) : Keyed pub agree t side n key := by
  obtain ⟨secret, ⟨o, ho, hseq, hanswer, hkey⟩ | ⟨a, ha, hseq, ⟨stamp, hoffer⟩, hkey⟩⟩ := hkeyed
  · exact ⟨secret, Or.inl ⟨o, hoffers _ ho, hseq, hanswers _ hanswer, hkey⟩⟩
  · exact ⟨secret, Or.inr ⟨a, hanswers _ ha, hseq, ⟨stamp, hoffers _ hoffer⟩, hkey⟩⟩

theorem Keyed.step [LT T] {s t : State T X K B} {side x : Side} {n : Nat} {key : K}
    (hkeyed : Keyed pub agree s x n key) (hstep : Step pub agree s side t) :
    Keyed pub agree t x n key := by
  have hgrow : ∀ {M : Type} (sent : Side → Set M) (m : M) (y : Side),
      sent y ⊆ Function.update sent side (insert m (sent side)) y := by
    intro M sent m y
    by_cases hy : y = side
    · subst hy
      rw [Function.update_self]
      exact Set.subset_insert m _
    · rw [Function.update_of_ne hy]
  cases hstep with
  | offer stamp secret => exact hkeyed.mono (hgrow _ _) fun _ => Set.Subset.rfl
  | accept o secret hmem haccept => exact hkeyed.mono (fun _ => Set.Subset.rfl) (hgrow _ _)
  | confirm a hmem hphase hseq =>
      exact hkeyed.mono (fun _ => Set.Subset.rfl) fun _ => Set.Subset.rfl

/-- The key a party holds. -/
theorem Inv.keyed [LT T] {s : State T X K B} (hinv : Inv pub agree s) {side : Side} {key : K}
    (hagreed : (s.party side).phase = .agreed key) :
    Keyed pub agree s side (s.party side).seq key := by
  refine ⟨(s.party side).secret, ?_⟩
  rcases (hinv side).agreed_origin key hagreed with ⟨a, ha, hseq⟩ | ⟨hoffer, a, ha, hseq, hkey⟩
  · obtain ⟨hvalue, o, ho, hoseq, _, hokey⟩ := (hinv side).answer_current a ha hseq
    rw [hagreed] at hokey
    refine Or.inl ⟨o, ho, hoseq, ?_, Phase.agreed.inj hokey⟩
    rw [← hvalue, ← hseq]
    exact ha
  · exact Or.inr ⟨a, ha, hseq, ⟨_, hoffer⟩, hkey⟩

/-- Whenever the two were in agreement under a number, it was on one key. -/
theorem Keyed.unique [Preorder T] {s : State T X K B} (hinv : Inv pub agree s)
    (hunique : AnswersUnique s) (hcomm : ∀ x y, agree x (pub y) = agree y (pub x)) {side : Side}
    {n : Nat} {key key' : K} (hkeyed : Keyed pub agree s side n key)
    (hkeyed' : Keyed pub agree s side.other n key') : key = key' := by
  have hcross : ∀ {x : Side} {secret secret' : X} {o : Offer T B} {a : Answer B} {stamp : T},
      o ∈ s.offers x.other → o.seq = n → ⟨n, pub secret⟩ ∈ s.answers x →
      a ∈ s.answers x → a.seq = n → ⟨n, stamp, pub secret'⟩ ∈ s.offers x.other →
      agree secret o.value = agree secret' a.value := by
    intro x secret secret' o a stamp ho hoseq hanswer ha haseq hoffer
    have hsame := (hinv x.other).offer_unique o ho _ hoffer hoseq
    have hsame' := hunique x a ha _ hanswer haseq
    rw [hsame, hsame']
    exact hcomm secret secret'
  obtain ⟨secret, ⟨o, ho, hseq, hanswer, rfl⟩ | ⟨a, ha, hseq, ⟨stamp, hoffer⟩, rfl⟩⟩ := hkeyed
  · obtain ⟨secret', ⟨o', ho', hseq', hanswer', rfl⟩ |
      ⟨a', ha', hseq', ⟨stamp', hoffer'⟩, rfl⟩⟩ := hkeyed'
    · exact (hinv.not_both_answered side hanswer hanswer' rfl).elim
    · rw [Side.other_other] at ha'
      exact hcross ho hseq hanswer ha' hseq' hoffer'
  · obtain ⟨secret', ⟨o', ho', hseq', hanswer', rfl⟩ |
      ⟨a', ha', hseq', ⟨stamp', hoffer'⟩, rfl⟩⟩ := hkeyed'
    · rw [Side.other_other] at ho'
      have hoffer₂ : ⟨n, stamp, pub secret⟩ ∈ s.offers side.other.other := by
        rwa [Side.other_other]
      have ho₂ : o' ∈ s.offers side.other.other := by
        rwa [Side.other_other]
      exact (hcross ho₂ hseq' hanswer' ha hseq hoffer₂).symm
    · rw [Side.other_other] at ha'
      exact (hinv.not_both_answered side ha' ha (hseq'.trans hseq.symm)).elim

end Rekey
