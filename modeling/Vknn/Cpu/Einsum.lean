import Vknn.Ir.Graph
import Vknn.Lib.Broadcast

/-!
# Einsum

An equation names the axes of two operands and of their result.  An element of the result is a
sum over the names that it lacks, of the products of the operands' elements at the named
coordinates; an ellipsis stands for axes that are broadcast.

The kernel knows three equations.  For any other it passes its first operand on.
-/

namespace Vknn.Cpu.Einsum

open RowMajor Broadcast List Function

variable {R : Type} [NonUnitalNonAssocSemiring R]

/-! ## The kernel -/

def stripWhitespace (s : Str) : Str := s.filter fun c => c ≠ 32 ∧ c ≠ 9

def loop (n : Int) (term : Int → R) : R := ((range n.toNat).map fun (j : Nat) => term j).sum

/-- The shape of the output, and the element at each of its positions. -/
def einsumCpu (equation : Str) (as bs : Shape) (a b : Int → R) : Shape × (Int → R) :=
  let eq := stripWhitespace equation
  if eq = str "i,j->ij" then
    let J := numElements bs
    ([numElements as, J], fun o => a (o / J) * b (o % J))
  else if eq = str "...ab,...b->...a" then
    let aN := as.getD (as.length - 2) 0
    let bN := as.getD (as.length - 1) 0
    let bBatch := size bs.dropLast
    (as.dropLast, fun o =>
      let bi := o / aN
      loop bN fun jj => a (bi * aN * bN + (o % aN * bN + jj)) *
        b ((if bBatch = 1 then 0 else bi % bBatch) * bN + jj))
  else if eq = str "bij,bnjk->bnik" then
    let I := as.getD 1 0
    let J := as.getD 2 0
    let N := bs.getD 1 0
    let K := bs.getD 3 0
    ([as.getD 0 0, N, I, K], fun o =>
      let i := o / K % I
      let n := o / K / I % N
      let bb := o / K / I / N
      loop J fun j => a ((bb * I + i) * J + j) * b (((bb * N + n) * J + j) * K + o % K))
  else (as, a)

/-! ## What an equation means -/

/-- A letter, or an axis of the ellipsis, counted from the last. -/
inductive Label where
  | name (c : UInt8)
  | axis (k : Nat)
deriving DecidableEq

/-- The names of one tensor's axes. -/
structure Term where
  front : Str := []
  ellipsis : Bool := false
  back : Str

def Term.text (t : Term) : Str := t.front ++ (if t.ellipsis then str "..." else []) ++ t.back

def leading (n : Nat) : List Label := (range n).reverse.map .axis

/-- The axes, where an ellipsis stands for `n`. -/
def Term.axes (t : Term) (n : Nat) : List Label :=
  t.front.map .name ++ (if t.ellipsis then leading n else []) ++ t.back.map .name

def Term.wide (t : Term) (s : Shape) : Nat := s.length - (t.front.length + t.back.length)

structure Equation where
  left : Term
  right : Term
  out : Term

def Equation.text (e : Equation) : Str :=
  e.left.text ++ str "," ++ e.right.text ++ str "->" ++ e.out.text

/-- Each axis has the extent of its name, or is one of an ellipsis and broadcast. -/
def Extents (dim : Label → Int) (l : List Label) (s : Shape) : Prop :=
  Forall₂ (fun x d => d = dim x ∨ (∃ k, x = .axis k) ∧ d = 1) l s

/-- The element at the coordinates of the names. -/
def read (l : List Label) (s : Shape) (x : Int → R) (env : Label → Int) : R :=
  x (dot (l.map env) (zeroed s))

/-- A sum over all coordinates of some names. -/
def total (dim : Label → Int) (term : (Label → Int) → R) : List Label → (Label → Int) → R
  | [], env => term env
  | x :: l, env => loop (dim x) fun v => total dim term l (update env x v)

/-- The operands have the named axes, and the result is the sum of products. -/
def Sums (l r o : List Label) (as bs : Shape) (a b : Int → R) (y : Shape × (Int → R)) : Prop :=
  ∃ dim summed, Extents dim l as ∧ Extents dim r bs ∧
    (∀ x ∈ l ++ r, (x, dim x) ∈ l.zip as ++ r.zip bs) ∧
    summed.Nodup ∧ (∀ x, x ∈ summed ↔ x ∈ l ++ r ∧ x ∉ o) ∧ y.1 = o.map dim ∧
    ∀ env, Inside (o.map env) (o.map dim) → y.2 (flat (o.map dim) (o.map env)) =
      total dim (fun e => read l as a e * read r bs b e) summed env

/-- The result is what an equation defines. -/
def Equation.Defines (e : Equation) (as bs : Shape) (a b : Int → R) (y : Shape × (Int → R)) :
    Prop :=
  let n := e.left.wide as
  let m := e.right.wide bs
  Sums (e.left.axes n) (e.right.axes m) (e.out.axes (max n m)) as bs a b y

/-! ## The equations of the kernel -/

def outer : Equation := ⟨{ back := str "i" }, { back := str "j" }, { back := str "ij" }⟩

def matVec : Equation where
  left := { ellipsis := true, back := str "ab" }
  right := { ellipsis := true, back := str "b" }
  out := { ellipsis := true, back := str "a" }

def batched : Equation := ⟨{ back := str "bij" }, { back := str "bnjk" }, { back := str "bnik" }⟩

/-- The axes have the extents of their names, but for leading ones of the second operand's
ellipsis, which are of one position. -/
def Fitting (e : Equation) (dim : Label → Int) (as bs : Shape) : Prop :=
  let n := e.left.wide as
  as = (e.left.axes n).map dim ∧ ∃ units k, bs = units ++ (e.right.axes k).map dim ∧
    (∀ d ∈ units, d = 1) ∧ units.length + k ≤ n

variable {dim env : Label → Int} {as bs : Shape} {a b : Int → R} {l r : List Label} {n q c : Int}
  {equation : Str} {A B I J K N V : Label}

theorem loop_congr {f g : Int → R} (same : ∀ v, 0 ≤ v → v < n → f v = g v) :
    loop n f = loop n g := by
  refine congrArg List.sum (map_congr_left fun j small => same j (by omega) ?_)
  rw [mem_range] at small
  omega

theorem decode (low : 0 ≤ c) (high : c < n) : (q * n + c) / n = q ∧ (q * n + c) % n = c := by
  have some_ : n ≠ 0 := by omega
  constructor
  · rw [Int.add_comm, Int.add_mul_ediv_right _ _ some_, Int.ediv_eq_zero_of_lt low high, Int.zero_add]
  · rw [Int.add_comm, Int.add_mul_emod_self_right, Int.emod_eq_of_lt low high]

theorem extents_map (dim : Label → Int) (l : List Label) : Extents dim l (l.map dim) :=
  forall₂_map_right_iff.mpr (forall₂_same.mpr fun _ _ => .inl rfl)

theorem mem_zip_map {x : Label} (mem : x ∈ l) : (x, dim x) ∈ l.zip (l.map dim) := by
  rw [← map_prod_left_eq_zip]
  exact mem_map.mpr ⟨x, mem, rfl⟩

theorem inside_names : Inside (l.map env) (l.map dim) ↔ ∀ x ∈ l, 0 ≤ env x ∧ env x < dim x := by
  rw [Inside, forall₂_map_left_iff, forall₂_map_right_iff, forall₂_same]

omit [NonUnitalNonAssocSemiring R] in
theorem read_names (x : Int → R) (inside : ∀ x ∈ l, 0 ≤ env x ∧ env x < dim x) :
    read l (l.map dim) x env = x (flat (l.map dim) (l.map env)) := by
  rw [read, dot_zeroed (inside_names.mpr inside)]

theorem sums_of_names {o summed : List Label} {y : Shape × (Int → R)} (nodup : summed.Nodup)
    (names : ∀ x, x ∈ summed ↔ x ∈ l ++ r ∧ x ∉ o) (shaped : y.1 = o.map dim)
    (value : ∀ env, Inside (o.map env) (o.map dim) → y.2 (flat (o.map dim) (o.map env)) =
      total dim (fun e => read l (l.map dim) a e * read r (r.map dim) b e) summed env) :
    Sums l r o (l.map dim) (r.map dim) a b y := by
  refine ⟨dim, summed, extents_map dim l, extents_map dim r, fun x mem => ?_, nodup, names,
    shaped, value⟩
  rw [mem_append] at mem ⊢
  exact mem.imp mem_zip_map mem_zip_map

theorem sums_outer (text : stripWhitespace equation = outer.text) :
    Sums [I] [J] [I, J] [dim I] [dim J] a b (einsumCpu equation [dim I] [dim J] a b) := by
  rw [einsumCpu, text, if_pos (by decide)]
  refine sums_of_names (l := [I]) (r := [J]) nodup_nil (by simp) (by simp [numElements])
    fun env inside => ?_
  obtain ⟨row, column, -⟩ := by simpa only [forall_mem_cons] using inside_names.mp inside
  rw [total, read_names a (by simpa using row), read_names b (by simpa using column)]
  have split := decode (q := env I) column.1 column.2
  simp [flat, dot, strides, size, numElements, split]

theorem sums_batched (text : stripWhitespace equation = batched.text) (apart : J ∉ [B, N, I, K]) :
    Sums [B, I, J] [B, N, J, K] [B, N, I, K] ([B, I, J].map dim) ([B, N, J, K].map dim) a b
      (einsumCpu equation ([B, I, J].map dim) ([B, N, J, K].map dim) a b) := by
  rw [einsumCpu, text, if_neg (by decide), if_neg (by decide), if_pos (by decide)]
  have other : B ≠ J ∧ N ≠ J ∧ I ≠ J ∧ K ≠ J := by simpa [eq_comm] using apart
  refine sums_of_names (nodup_cons.mpr ⟨not_mem_nil (a := J), nodup_nil⟩) (fun x => ?_) rfl
    fun env inside => ?_
  · constructor
    · intro mem
      obtain rfl := mem_singleton.mp mem
      exact ⟨by simp, apart⟩
    · simp only [cons_append, nil_append, mem_cons, not_mem_nil]
      tauto
  · obtain ⟨batch, slice, row, column, -⟩ := by
      simpa only [forall_mem_cons] using inside_names.mp inside
    have position : flat ([B, N, I, K].map dim) ([B, N, I, K].map env) =
        ((env B * dim N + env N) * dim I + env I) * dim K + env K := by
      simp only [map_cons, map_nil, flat, dot, strides, size]
      ring
    rw [total, position]
    conv_lhs =>
      simp only [map_cons, getD_cons_zero, getD_cons_succ, decode column.1 column.2,
        decode row.1 row.2, decode slice.1 slice.2]
    refine loop_congr (R := R) fun v low high => ?_
    have some_ : 0 ≤ v ∧ v < dim J := ⟨low, high⟩
    rw [total, read_names a (by simp [other, batch, row, some_]),
      read_names b (by simp [other, batch, slice, column, some_])]
    congr 2
    · simp [flat, dot, strides, size, other]
      ring
    · simp [flat, dot, strides, size, other]
      ring

theorem flat_snoc (dim env : Label → Int) (l : List Label) (x : Label) :
    flat ((l ++ [x]).map dim) ((l ++ [x]).map env) = flat (l.map dim) (l.map env) * dim x + env x := by
  rw [map_append, map_append, flat_append (by simp)]
  simp [flat, dot, strides, size]

theorem flat_update (absent : V ∉ l) (v : Int) :
    flat ((l ++ [V]).map dim) ((l ++ [V]).map (update env V v)) =
      flat (l.map dim) (l.map env) * dim V + v := by
  have kept : l.map (update env V v) = l.map env := map_congr_left fun _ mem =>
    update_of_ne (ne_of_mem_of_not_mem mem absent) _ _
  rw [flat_snoc, kept, update_self]

theorem inside_update {v : Int} (absent : V ∉ l) (inside : ∀ x ∈ l, 0 ≤ env x ∧ env x < dim x)
    (here : 0 ≤ v ∧ v < dim V) :
    ∀ x ∈ l ++ [V], 0 ≤ update env V v x ∧ update env V v x < dim x := by
  refine forall_mem_append.mpr ⟨fun x mem => ?_, by simpa using here⟩
  rw [update_of_ne (ne_of_mem_of_not_mem mem absent)]
  exact inside x mem

/-- Here the second operand has axes of one position where the first one has more. -/
theorem sums_matVec (dim : Label → Int) (a b : Int → R) (A V : Label) (P S U : List Label)
    (text : stripWhitespace equation = matVec.text)
    (apart : V ∉ P ++ S ++ [A]) (sub : ∀ x ∈ U, x ∈ P) (axes : ∀ x ∈ U, ∃ j, x = .axis j) :
    let as := (P ++ S ++ [A] ++ [V]).map dim
    let bs := replicate U.length 1 ++ (S ++ [V]).map dim
    Sums (P ++ S ++ [A] ++ [V]) (U ++ S ++ [V]) (P ++ S ++ [A]) as bs a b
      (einsumCpu equation as bs a b) := by
  intro as bs
  obtain ⟨rows, columns⟩ : as.getD (as.length - 2) 0 = dim A ∧ as.getD (as.length - 1) 0 = dim V := by
    have ends : as = (P ++ S).map dim ++ [dim A, dim V] := by simp [as]
    rw [ends]
    generalize (P ++ S).map dim = front
    simp
  have count : size bs.dropLast = size (S.map dim) := by
    have front : bs.dropLast = replicate U.length 1 ++ S.map dim := by simp [bs]
    rw [front, size_append, size_units, Int.one_mul]
  rw [einsumCpu, text, if_neg (by decide), if_pos (by decide), rows, columns, count]
  refine ⟨dim, [V], extents_map dim _, ?_, fun x mem => ?_, by simp, fun x => ?_, by simp [as], ?_⟩
  · rw [append_assoc]
    refine rel_append ?_ (extents_map dim _)
    exact forall₂_iff_get.mpr ⟨by simp, fun i small _ => .inr ⟨axes _ (get_mem _ _), by simp⟩⟩
  · have listed : x ∈ P ++ S ++ [A] ++ [V] := by
      have := sub x
      simp only [mem_append, mem_cons, not_mem_nil] at mem ⊢
      tauto
    exact mem_append_left _ (mem_zip_map listed)
  · have := sub x
    constructor
    · intro mem
      obtain rfl := mem_singleton.mp mem
      exact ⟨by simp, apart⟩
    · simp only [mem_append, mem_cons, not_mem_nil]
      tauto
  · intro env inside
    have all := inside_names.mp inside
    obtain ⟨batch, last⟩ := forall_mem_append.mp all
    have row := last A (mem_singleton_self A)
    have kept := (forall_mem_append.mp batch).2
    obtain ⟨least, high⟩ := flat_inside (inside_names.mpr kept)
    have wrapped : (if size (S.map dim) = 1 then 0 else
        flat ((P ++ S).map dim) ((P ++ S).map env) % size (S.map dim)) =
          flat (S.map dim) (S.map env) := by
      split_ifs with single
      · omega
      · rw [map_append, map_append, flat_append (by simp)]
        exact (decode least high).2
    rw [flat_snoc, total]
    dsimp only
    rw [(decode row.1 row.2).1, (decode row.1 row.2).2, wrapped]
    refine loop_congr (R := R) fun v low below => ?_
    have absent : V ∉ S := fun mem => apart (by simp [mem])
    have second : read (U ++ S ++ [V]) bs b (update env V v) =
        b (flat (S.map dim) (S.map env) * dim V + v) := by
      rw [read, append_assoc, map_append, zeroed_units (fun d mem => eq_of_mem_replicate mem),
        dot_append (by simp), length_replicate, dot_zeros, Int.zero_add,
        dot_zeroed (inside_names.mpr (inside_update absent kept ⟨low, below⟩)), flat_update absent]
    rw [total, second, read_names a (inside_update apart all ⟨low, below⟩), flat_update apart,
      flat_snoc]
    congr 2
    ring

theorem leading_add (m k : Nat) :
    leading (m + k) = (range m).reverse.map (fun j => .axis (k + j)) ++ leading k := by
  rw [leading, Nat.add_comm, range_add, reverse_append, map_append, ← map_reverse, map_map]
  rfl

def matMul : Equation := ⟨{ back := str "ij" }, { back := str "jk" }, { back := str "ik" }⟩

end Vknn.Cpu.Einsum
