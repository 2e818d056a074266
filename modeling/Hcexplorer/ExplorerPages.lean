import Hcexplorer.BlockRoutes
import Hcexplorer.Hcsqlite.ExplorerBlock

/-!
# The pages of the explorer's list of blocks

The home page lists the blocks from a height downwards, with a number of rows. Both are taken
from the query, within bounds; a height of no block gives a row of zeros. The script of the page
reads the first and the last height it shows and builds the links to the older and the newer
page from them, so a visitor walks through pages of which each depends on the one before it.

From whichever page of the chain a visitor starts, the pages behind the link to the older one
show the blocks below it one after another, each once, also where the server changes the number of
rows on the way; behind the genesis block there are only rows of zeros.
-/

namespace Hcexplorer.ExplorerPages

open Collection Hcsqlite LinkedChain Live
open BlockRoutes (servedContext servedNode served_mirror served_rooted)
open Strconv (Text atoi formatInt)

section Model

/-- The data source of the explorer: the tables, the packages of hcd and the node. -/
structure Source (Rates Rest : Type) where
  db : DB Rates
  packages : Packages
  getBlockHash : Int → Option Hash
  getBlockVerbose : Hash → Option (BlockVerboseResult Rest)

variable {Rates Rest : Type} (source : Source Rates Rest)

/-- `new(BlockBasic)`, the row of zeros that is shown where the node has no block. -/
def BlockBasic.new : BlockBasic := ⟨0, 0, false, 0, 0, 0, 0, 0⟩

/-- `GetHeight`, the height up to which the tables hold summaries. -/
def getHeight : Int64 := Int64.ofInt (source.db.getBlockSummaryHeight none).1

/-- `rpcutils.GetBlockVerbose`, which asks the node for the hash at a height and then for the
block; none for nil. -/
def getBlockVerbose (idx : Int) : Option (BlockVerboseResult Rest) :=
  (source.getBlockHash idx).bind source.getBlockVerbose

/-- One turn of the loop of `GetExplorerBlocks`: the row of a height, or a row of zeros. -/
def explorerRow (i : Int) : BlockBasic :=
  (getBlockVerbose source i).elim BlockBasic.new (makeExplorerBlockBasic source.packages)

/-- The turns of this loop, from a height downwards. -/
def explorerRows (i : Int) : Nat → List BlockBasic
  | 0 => []
  | turns + 1 => explorerRow source i :: explorerRows (i - 1) turns

/-- `GetExplorerBlocks`, the rows from one height down to just above another, and none, the
source's nil, where the first height is below the second. -/
def getExplorerBlocks (start stop : Int64) : Option (List BlockBasic) :=
  if start < stop then none
  else some (explorerRows source start.toInt (start.toInt - stop.toInt).toNat)

/-- `maxExplorerRows`, the largest number of rows of a page. -/
def maxExplorerRows : Int64 := 2000

/-- `minExplorerRows`, the smallest number of rows of a page, and the number where the query has
none that can be used. -/
def minExplorerRows : Int64 := 20

/-- The height of a page, from the query: a text that is no number or a height above the best one
counts as the best one. -/
def pageHeight (idx : Int64) (height : Text) : Int64 :=
  match atoi height with
  | none => idx
  | some height => if idx < height then idx else height

/-- The number of rows of a page, from the query: one out of bounds, or one that reaches below
the genesis block, counts as the smallest. -/
def pageRows (height : Int64) (rows : Text) : Int64 :=
  match atoi rows with
  | none => minExplorerRows
  | some rows =>
    if maxExplorerRows < rows ∨ rows < minExplorerRows ∨ height - rows < 0 then minExplorerRows
    else rows

/-- What the template of the home page is given. -/
structure HomePage where
  data : List BlockBasic
  bestBlock : Int64

/-- `root`, the page for a query; none for the redirection to `/error`. -/
def root (height rows : Text) : Option HomePage :=
  let idx := getHeight source
  let height := pageHeight idx height
  let rows := pageRows height rows
  (getExplorerBlocks source height (height - rows)).map fun summaries => ⟨summaries, idx⟩

/-- The heights that the script reads off a page. A page without rows leaves it without links. -/
def HomePage.ends (page : HomePage) : Option (Int × Int) :=
  match page.data.head?, page.data.getLast? with
  | some first, some last => some (first.height.toInt, last.height.toInt)
  | _, _ => none

/-- The query of the link to the older page. -/
def HomePage.older (page : HomePage) : Option (Text × Text) :=
  page.ends.map fun (first, last) =>
    let numBlocks := first - last + 1
    (formatInt (Int64.ofInt (first - numBlocks)), formatInt (Int64.ofInt numBlocks))

/-- The query of the link to the newer page. -/
def HomePage.newer (page : HomePage) : Option (Text × Text) :=
  page.ends.map fun (first, last) =>
    let numBlocks := first - last + 1
    (formatInt (Int64.ofInt (first + numBlocks)), formatInt (Int64.ofInt numBlocks))

/-- The page behind a link to an older page, if there is a link and it leads to a page. -/
def follow (link : Option (Text × Text)) : Option HomePage :=
  link.bind fun (height, rows) => root source height rows

/-- The pages of a visitor who asks for one and then for the older one again and again. -/
def olderPages (height rows : Text) : Nat → Option HomePage
  | 0 => root source height rows
  | n + 1 => (olderPages height rows n).bind fun page => follow source page.older

/-- The rows of the first pages, none where a page is missing. -/
def shownRows (height rows : Text) : Nat → Option (List BlockBasic)
  | 0 => some []
  | n + 1 => (shownRows height rows n).bind fun shown =>
    (olderPages source height rows n).map fun page => shown ++ page.data

end Model

section Rows

variable {Rates Rest : Type} {source : Source Rates Rest}

/-- The last row of a page is that of its lowest height. -/
theorem explorerRows_getLast? (i : Int) (turns : Nat) :
    (explorerRows source i (turns + 1)).getLast? = some (explorerRow source (i - turns)) := by
  induction turns generalizing i with
  | zero =>
    have same : i - ((0 : Nat) : Int) = i := by omega
    rw [same]
    rfl
  | succ turns inductionHypothesis =>
    have next : i - 1 - (turns : Int) = i - ((turns + 1 : Nat) : Int) := by omega
    have here := inductionHypothesis (i - 1)
    rw [explorerRows, List.getLast?_cons, here, next]
    rfl

/-- Rows in front of the rows of the heights below them. -/
theorem explorerRows_append (i : Int) (first second : Nat) :
    explorerRows source i first ++ explorerRows source (i - first) second =
      explorerRows source i (first + second) := by
  induction first generalizing i with
  | zero =>
    have same : i - ((0 : Nat) : Int) = i := by omega
    rw [same, Nat.zero_add]
    rfl
  | succ first inductionHypothesis =>
    have next : i - ((first + 1 : Nat) : Int) = i - 1 - first := by omega
    have count : first + 1 + second = first + second + 1 := by omega
    rw [explorerRows, List.cons_append, next, inductionHypothesis, count, explorerRows]

/-- A page does not begin above the best block, whatever the query says. -/
theorem pageHeight_le (idx : Int64) (height : Text) : (pageHeight idx height).toInt ≤ idx.toInt := by
  unfold pageHeight
  split
  · exact le_rfl
  · split
    · exact le_rfl
    · rename_i notAbove
      rw [Int64.lt_iff_toInt_lt] at notAbove
      omega

/-- The number of rows of a page is within the bounds, whatever the query says. -/
theorem pageRows_bounds (height : Int64) (rows : Text) :
    20 ≤ (pageRows height rows).toInt ∧ (pageRows height rows).toInt ≤ 2000 := by
  have least : minExplorerRows.toInt = 20 := by decide
  have most : maxExplorerRows.toInt = 2000 := by decide
  unfold pageRows
  split
  · omega
  · rename_i given isGiven
    split
    · omega
    · rename_i inBounds
      simp only [not_or, Int64.lt_iff_toInt_lt, not_lt, least, most] at inBounds
      omega

/-- A page has its rows, unless the height below the last one is none of an `int64`. -/
theorem root_page (height rows : Text) : root source height rows =
    if (pageHeight (getHeight source) height).toInt -
        (pageRows (pageHeight (getHeight source) height) rows).toInt < -9223372036854775808 then none
    else some ⟨explorerRows source (pageHeight (getHeight source) height).toInt
      (pageRows (pageHeight (getHeight source) height) rows).toInt.toNat, getHeight source⟩ := by
  unfold root
  dsimp only
  generalize pageHeight (getHeight source) height = top
  obtain ⟨least, most⟩ := pageRows_bounds top rows
  generalize pageRows top rows = count at least most ⊢
  have low := top.le_toInt
  have high := top.toInt_lt
  by_cases below : top.toInt - count.toInt < -9223372036854775808
  · have stop : (top - count).toInt = top.toInt - count.toInt + 18446744073709551616 := by
      rw [Int64.toInt_sub, Int.bmod_eq_iff (by decide)]
      exact ⟨by omega, by omega, 1, by omega⟩
    have reversed : top < top - count := by
      rw [Int64.lt_iff_toInt_lt, stop]
      omega
    rw [if_pos below, getExplorerBlocks, if_pos reversed]
    rfl
  · have stop : (top - count).toInt = top.toInt - count.toInt := by
      rw [Int64.toInt_sub, Int.bmod_eq_of_le] <;> omega
    have ordered : ¬ top < top - count := by
      rw [Int64.lt_iff_toInt_lt, stop]
      omega
    have turns : top.toInt - (top.toInt - count.toInt) = count.toInt := by omega
    rw [if_neg below, getExplorerBlocks, if_neg ordered, stop, turns]
    rfl

end Rows

section Walk

variable {hcd : Hcd} {statistics : Statistics} {Rest : Type} {source : Source statistics.Rates Rest}
  {chain : List MsgBlock} {dataOf : MsgBlock → BlockVerboseResult Rest}

/-- The node answers for the blocks of its main chain, and not for a height below it. -/
structure Source.Documented (source : Source statistics.Rates Rest) (hcd : Hcd) (chain : List MsgBlock)
    (dataOf : MsgBlock → BlockVerboseResult Rest) : Prop where
  hash : ∀ (height : Nat) block, chain[height]? = some block →
    source.getBlockHash height = some (hcd.hashOf block)
  verbose : ∀ block ∈ chain, source.getBlockVerbose (hcd.hashOf block) = some (dataOf block)
  height : ∀ block ∈ chain, (dataOf block).height.toInt = block.height
  below : ∀ height : Int, height < 0 → source.getBlockHash height = none

/-- The row of a block, which is made of what the node answers for it. -/
def rowOf (source : Source statistics.Rates Rest) (dataOf : MsgBlock → BlockVerboseResult Rest)
    (block : MsgBlock) : BlockBasic := makeExplorerBlockBasic source.packages (dataOf block)

/-- A height of the chain has the row of its block. -/
theorem explorerRow_block (documented : source.Documented hcd chain dataOf) {height : Nat}
    {block : MsgBlock} (found : chain[height]? = some block) :
    explorerRow source height = rowOf source dataOf block := by
  rw [explorerRow, getBlockVerbose, documented.hash height block found, Option.bind_some,
    documented.verbose block (List.mem_of_getElem? found)]
  rfl

/-- A height below it has a row of zeros. -/
theorem explorerRow_below (documented : source.Documented hcd chain dataOf) {height : Int}
    (below : height < 0) : explorerRow source height = BlockBasic.new := by
  rw [explorerRow, getBlockVerbose, documented.below height below]
  rfl

/-- The height that a row shows is the height asked for, or zero below the genesis block. -/
theorem explorerRow_height (documented : source.Documented hcd chain dataOf)
    (rooted : (chainView hcd).Rooted chain) {height : Int} (inside : height < chain.length) :
    (explorerRow source height).height.toInt = max height 0 := by
  by_cases below : height < 0
  · rw [explorerRow_below documented below]
    have zero : BlockBasic.new.height.toInt = 0 := by decide
    omega
  · have atHeight : height.toNat < chain.length := by omega
    have found := List.getElem?_eq_getElem atHeight
    have row := explorerRow_block documented found
    rw [Int.toNat_of_nonneg (by omega)] at row
    have shown := documented.height _ (List.getElem_mem atHeight)
    have isHeight : chain[height.toNat].height = height.toNat := rooted.height_eq found
    have same : (explorerRow source height).height = (dataOf chain[height.toNat]).height := by
      rw [row]
      rfl
    rw [same, shown, isHeight]
    omega

/-- Below the chain there are only rows of zeros. -/
theorem explorerRows_below (documented : source.Documented hcd chain dataOf) {height : Int}
    (below : height < 0) (turns : Nat) :
    explorerRows source height turns = List.replicate turns BlockBasic.new := by
  induction turns generalizing height with
  | zero => rfl
  | succ turns inductionHypothesis =>
    have next : height - 1 < 0 := by omega
    rw [explorerRows, explorerRow_below documented below, inductionHypothesis next,
      List.replicate_succ]

/-- Rows from a height of the chain are those of its blocks downwards, and then rows of zeros. -/
theorem explorerRows_blocks (documented : source.Documented hcd chain dataOf) {count : Nat}
    (within : count ≤ chain.length) (turns : Nat) : explorerRows source (count - 1 : Int) turns =
      ((chain.take count).reverse.map (rowOf source dataOf)).take turns ++
        List.replicate (turns - count) BlockBasic.new := by
  induction count generalizing turns with
  | zero =>
    rw [explorerRows_below documented (by omega), List.take_zero, Nat.sub_zero, List.reverse_nil,
      List.map_nil, List.take_nil, List.nil_append]
  | succ count inductionHypothesis =>
    cases turns with
    | zero => simp [explorerRows]
    | succ turns =>
      have found := List.getElem?_eq_getElem (show count < chain.length by omega)
      have here : ((count + 1 : Nat) : Int) - 1 = count := by omega
      have fewer : turns + 1 - (count + 1) = turns - count := by omega
      have grown : chain.take (count + 1) = chain.take count ++ [chain[count]] := by
        rw [List.take_add_one, found]
        rfl
      rw [here, explorerRows, explorerRow_block documented found, inductionHypothesis (by omega), grown,
        List.reverse_append, List.reverse_singleton, List.singleton_append, List.map_cons,
        List.take_succ_cons, List.cons_append, fewer]

/-- Where the link to the older page leads: below a page of blocks only, and else below the
chain. -/
theorem older_link (documented : source.Documented hcd chain dataOf)
    (rooted : (chainView hcd).Rooted chain) {top : Int} (inside : top < chain.length) (turns : Nat)
    (bestBlock : Int64) : ∃ next numBlocks : Int,
      (⟨explorerRows source top (turns + 1), bestBlock⟩ : HomePage).older =
        some (formatInt (Int64.ofInt next), formatInt (Int64.ofInt numBlocks)) ∧
      0 ≤ numBlocks ∧ numBlocks ≤ max top 0 + 1 ∧
      ((turns ≤ top ∧ next = top - (turns + 1)) ∨ (top < turns ∧ next = -1)) := by
  have first : (explorerRows source top (turns + 1)).head? = some (explorerRow source top) := rfl
  have last : (explorerRows source top (turns + 1)).getLast? =
      some (explorerRow source (top - turns)) := explorerRows_getLast? top turns
  have firstHeight := explorerRow_height documented rooted inside
  have lastHeight := explorerRow_height documented rooted (show top - turns < chain.length by omega)
  refine ⟨max top 0 - (max top 0 - max (top - turns) 0 + 1), max top 0 - max (top - turns) 0 + 1,
    ?_, by omega, by omega, ?_⟩
  · simp only [HomePage.older, HomePage.ends, first, last, Option.map_some, firstHeight, lastHeight]
  · by_cases onlyBlocks : (turns : Int) ≤ top
    · exact Or.inl ⟨onlyBlocks, by omega⟩
    · exact Or.inr ⟨by omega, by omega⟩

/-- The best height of mirrored tables is the height of the chain's tip. -/
theorem getHeight_chain (mirrors : Mirrors hcd source.db chain) (rooted : (chainView hcd).Rooted chain)
    (nonempty : chain ≠ []) : (getHeight source).toInt = chain.length - 1 := by
  have known : ¬ source.db.dbSummaryHeight < 0 := by
    have := List.length_pos_of_ne_nil nonempty
    rw [mirrors.summaryHeight]
    omega
  have last : chain.length - 1 < chain.length := Nat.sub_lt (List.length_pos_of_ne_nil nonempty) one_pos
  have isHeight : chain[chain.length - 1].height = (chain.length - 1 : Nat) :=
    rooted.height_eq (List.getElem?_eq_getElem last)
  have bound := chain[chain.length - 1].header.height.toNat_lt
  have asNat : ((chain[chain.length - 1].header.height.toNat : Nat) : Int) = (chain.length - 1 : Nat) :=
    isHeight
  rw [getHeight, DB.getBlockSummaryHeight, if_neg known]
  dsimp only
  rw [mirrors.summaryHeight]
  exact Int64.toInt_ofInt_of_le (by omega) (by omega)

/-- The page behind a link to a height of the chain or just below it. -/
theorem follow_page (mirrors : Mirrors hcd source.db chain) (rooted : (chainView hcd).Rooted chain)
    (nonempty : chain ≠ []) {next : Int} (low : -1 ≤ next) (high : next < chain.length)
    (numBlocks : Int) :
    follow source (some (formatInt (Int64.ofInt next), formatInt (Int64.ofInt numBlocks))) =
      some ⟨explorerRows source next
        (pageRows (Int64.ofInt next) (formatInt (Int64.ofInt numBlocks))).toInt.toNat,
          getHeight source⟩ := by
  have best := getHeight_chain mirrors rooted nonempty
  have bestHigh := (getHeight source).toInt_lt
  have isNext : (Int64.ofInt next).toInt = next := Int64.toInt_ofInt_of_le (by omega) (by omega)
  have isNumber : atoi (formatInt (Int64.ofInt next)) = some (Int64.ofInt next) :=
    Strconv.parseInt_formatInt _
  have notAbove : ¬ getHeight source < Int64.ofInt next := by
    rw [Int64.lt_iff_toInt_lt, isNext]
    omega
  have isHeight : pageHeight (getHeight source) (formatInt (Int64.ofInt next)) = Int64.ofInt next := by
    rw [pageHeight, isNumber]
    exact if_neg notAbove
  obtain ⟨least, most⟩ := pageRows_bounds (Int64.ofInt next) (formatInt (Int64.ofInt numBlocks))
  have inside : ¬ next - (pageRows (Int64.ofInt next) (formatInt (Int64.ofInt numBlocks))).toInt <
      -9223372036854775808 := by omega
  simp only [follow, Option.bind_some]
  rw [root_page, isHeight, isNext, if_neg inside]

/-- The link to the newer page of a page of blocks leads to the blocks just above them, as many,
while there are so many. -/
theorem newer_page (mirrors : Mirrors hcd source.db chain) (rooted : (chainView hcd).Rooted chain)
    (documented : source.Documented hcd chain dataOf) {top : Int} {turns : Nat}
    (onlyBlocks : turns ≤ top) (inside : top + (turns + 1) < chain.length) (least : 20 ≤ turns + 1)
    (most : turns + 1 ≤ 2000) (bestBlock : Int64) :
    follow source (⟨explorerRows source top (turns + 1), bestBlock⟩ : HomePage).newer =
      some ⟨explorerRows source (top + (turns + 1)) (turns + 1), getHeight source⟩ := by
  have first : (explorerRows source top (turns + 1)).head? = some (explorerRow source top) := rfl
  have last : (explorerRows source top (turns + 1)).getLast? =
      some (explorerRow source (top - turns)) := explorerRows_getLast? top turns
  have firstHeight := explorerRow_height documented rooted (show top < chain.length by omega)
  have lastHeight := explorerRow_height documented rooted (show top - turns < chain.length by omega)
  have best := getHeight_chain mirrors rooted rooted.nonempty
  have bestHigh := (getHeight source).toInt_lt
  have link : (⟨explorerRows source top (turns + 1), bestBlock⟩ : HomePage).newer =
      some (formatInt (Int64.ofInt (top + (turns + 1))), formatInt (Int64.ofInt (turns + 1))) := by
    have count : max top 0 - max (top - turns) 0 + 1 = turns + 1 := by omega
    have above : max top 0 + ((turns : Int) + 1) = top + (turns + 1) := by omega
    simp only [HomePage.newer, HomePage.ends, first, last, Option.map_some, firstHeight, lastHeight,
      count, above]
  have isCount : (Int64.ofInt ((turns : Int) + 1)).toInt = turns + 1 :=
    Int64.toInt_ofInt_of_le (by omega) (by omega)
  have isTop : (Int64.ofInt (top + (turns + 1))).toInt = top + (turns + 1) :=
    Int64.toInt_ofInt_of_le (by omega) (by omega)
  have isNumber : atoi (formatInt (Int64.ofInt ((turns : Int) + 1))) =
      some (Int64.ofInt ((turns : Int) + 1)) := Strconv.parseInt_formatInt _
  have kept : pageRows (Int64.ofInt (top + (turns + 1))) (formatInt (Int64.ofInt ((turns : Int) + 1))) =
      Int64.ofInt ((turns : Int) + 1) := by
    have leastRows : minExplorerRows.toInt = 20 := by decide
    have mostRows : maxExplorerRows.toInt = 2000 := by decide
    have difference : (Int64.ofInt (top + (turns + 1)) -
        Int64.ofInt ((turns : Int) + 1)).toInt = top := by
      rw [Int64.toInt_sub, isTop, isCount, Int.bmod_eq_of_le] <;> omega
    rw [pageRows, isNumber]
    refine if_neg ?_
    rw [Int64.lt_iff_toInt_lt, Int64.lt_iff_toInt_lt, Int64.lt_iff_toInt_lt, difference, isCount,
      leastRows, mostRows, Int64.toInt_zero]
    omega
  have turnsIs : ((turns : Int) + 1).toNat = turns + 1 := by omega
  rw [link, follow_page mirrors rooted rooted.nonempty (by omega) inside, kept, isCount, turnsIs]

/-- After any number of pages: the rows shown so far are those downwards from the first height,
and the page that comes goes on below them, or both are below the chain. -/
theorem pages_run (mirrors : Mirrors hcd source.db chain) (rooted : (chainView hcd).Rooted chain)
    (documented : source.Documented hcd chain dataOf) {height rows : Text}
    (inside : ¬ (pageHeight (getHeight source) height).toInt -
      (pageRows (pageHeight (getHeight source) height) rows).toInt < -9223372036854775808) (n : Nat) :
    ∃ (top : Int) (turns total : Nat),
      olderPages source height rows n = some ⟨explorerRows source top (turns + 1), getHeight source⟩ ∧
      20 ≤ turns + 1 ∧ top < chain.length ∧ 20 * n ≤ total ∧
      shownRows source height rows n =
        some (explorerRows source (pageHeight (getHeight source) height).toInt total) ∧
      (top = (pageHeight (getHeight source) height).toInt - total ∨
        (top < 0 ∧ (pageHeight (getHeight source) height).toInt - total < 0)) := by
  have best := getHeight_chain mirrors rooted rooted.nonempty
  have nonempty := List.length_pos_of_ne_nil rooted.nonempty
  induction n with
  | zero =>
    obtain ⟨least, most⟩ := pageRows_bounds (pageHeight (getHeight source) height) rows
    have notAbove := pageHeight_le (getHeight source) height
    refine ⟨(pageHeight (getHeight source) height).toInt,
      (pageRows (pageHeight (getHeight source) height) rows).toInt.toNat - 1, 0, ?_,
      by omega, by omega, le_rfl, rfl, Or.inl (by omega)⟩
    have turns : (pageRows (pageHeight (getHeight source) height) rows).toInt.toNat - 1 + 1 =
        (pageRows (pageHeight (getHeight source) height) rows).toInt.toNat := by omega
    rw [olderPages, root_page, if_neg inside, turns]
  | succ n inductionHypothesis =>
    obtain ⟨top, turns, total, page, enough, below, atLeast, shown, place⟩ := inductionHypothesis
    obtain ⟨next, numBlocks, link, -, -, leads⟩ :=
      older_link documented rooted below turns (getHeight source)
    have nextPage := follow_page mirrors rooted rooted.nonempty (show -1 ≤ next by omega)
      (show next < chain.length by omega) numBlocks
    obtain ⟨least, most⟩ := pageRows_bounds (Int64.ofInt next) (formatInt (Int64.ofInt numBlocks))
    refine ⟨next, (pageRows (Int64.ofInt next) (formatInt (Int64.ofInt numBlocks))).toInt.toNat - 1,
      total + (turns + 1), ?_, by omega, by omega, by omega, ?_, ?_⟩
    · have turnsIs : (pageRows (Int64.ofInt next) (formatInt (Int64.ofInt numBlocks))).toInt.toNat - 1 +
          1 = (pageRows (Int64.ofInt next) (formatInt (Int64.ofInt numBlocks))).toInt.toNat := by omega
      rw [olderPages, page, Option.bind_some, link, nextPage, turnsIs]
    · have joined : explorerRows source (pageHeight (getHeight source) height).toInt total ++
          explorerRows source top (turns + 1) =
            explorerRows source (pageHeight (getHeight source) height).toInt (total + (turns + 1)) := by
        rcases place with here | ⟨topBelow, restBelow⟩
        · rw [here, explorerRows_append]
        · rw [explorerRows_below documented topBelow, ← explorerRows_below documented restBelow,
            explorerRows_append]
      rw [shownRows, shown, Option.bind_some, page, Option.map_some, joined]
    · rcases leads with ⟨onlyBlocks, isNext⟩ | ⟨mixed, isNext⟩
      · exact Or.inl (by omega)
      · exact Or.inr ⟨by omega, by omega⟩

/-- Over tables that mirror the node's main chain, and whatever the query asks for: the pages that
a visitor comes to over the link to the older page show the blocks from the height of the first
page down to the genesis block one after another, each once, and then rows of zeros; n pages have
at least 20 n rows. Only a height from which the rows would go below every `int64` leads to the
error page. -/
theorem older_pages_cover (mirrors : Mirrors hcd source.db chain)
    (rooted : (chainView hcd).Rooted chain) (documented : source.Documented hcd chain dataOf)
    (height rows : Text) :
    ((pageHeight (getHeight source) height).toInt -
        (pageRows (pageHeight (getHeight source) height) rows).toInt < -9223372036854775808 →
      olderPages source height rows 0 = none) ∧
    (-9223372036854775808 ≤ (pageHeight (getHeight source) height).toInt -
        (pageRows (pageHeight (getHeight source) height) rows).toInt →
      ∀ n, ∃ total, 20 * n ≤ total ∧ shownRows source height rows n =
        some (((chain.take ((pageHeight (getHeight source) height).toInt + 1).toNat).reverse.map
            (rowOf source dataOf)).take total ++
          List.replicate (total - ((pageHeight (getHeight source) height).toInt + 1).toNat)
            BlockBasic.new)) := by
  constructor
  · intro outside
    rw [olderPages, root_page, if_pos outside]
  · intro inside n
    have best := getHeight_chain mirrors rooted rooted.nonempty
    have notAbove := pageHeight_le (getHeight source) height
    obtain ⟨top, turns, total, -, -, -, atLeast, shown, -⟩ :=
      pages_run mirrors rooted documented (not_lt.mpr inside) n
    refine ⟨total, atLeast, shown.trans (congrArg some ?_)⟩
    by_cases below : (pageHeight (getHeight source) height).toInt < 0
    · have none : ((pageHeight (getHeight source) height).toInt + 1).toNat = 0 := by omega
      rw [explorerRows_below documented below, none, List.take_zero, List.reverse_nil, List.map_nil,
        List.take_nil, List.nil_append, Nat.sub_zero]
    · have blocks := explorerRows_blocks documented
        (show ((pageHeight (getHeight source) height).toInt + 1).toNat ≤ chain.length by omega) total
      have same : (((pageHeight (getHeight source) height).toInt + 1).toNat : Int) - 1 =
          (pageHeight (getHeight source) height).toInt := by omega
      rw [same] at blocks
      exact blocks

end Walk

section Sample

/-- What the node has of a block, without transactions. -/
def pagedData (height : Int64) : BlockVerboseResult Unit := ⟨height, 1000, 5, 0, 60, [], [], ()⟩

/-- The tables of two blocks, and a node that has them. -/
def pagedSource : Source noRates.Rates Unit where
  db := servedContext.db
  packages := regularPackages
  getBlockHash := servedNode.getBlockHash
  getBlockVerbose hash :=
    if hash = Sample.hcd.hashOf Sample.genesis then some (pagedData 0)
    else if hash = Sample.hcd.hashOf Sample.firstBlock then some (pagedData 1) else none

/-- The node of the sample answers for the two blocks as it documents. -/
theorem paged_documented : pagedSource.Documented Sample.hcd [Sample.genesis, Sample.firstBlock]
    (fun block => pagedData (Int64.ofInt block.height)) := by
  refine ⟨?_, ?_, ?_, ?_⟩
  · intro height block found
    match height with
    | 0 => cases found; rfl
    | 1 => cases found; rfl
    | _ + 2 => cases found
  · intro block member
    rcases List.mem_pair.mp member with rfl | rfl <;> rfl
  · intro block member
    rcases List.mem_pair.mp member with rfl | rfl <;> rfl
  · intro height below
    have notFirst : height ≠ 0 := by omega
    have notSecond : height ≠ 1 := by omega
    simp only [pagedSource, servedNode, if_neg notFirst, if_neg notSecond]

/-- The law at two blocks: after two pages both were shown, and otherwise rows of zeros. -/
theorem older_pages_cover_two :
    ∃ total, 40 ≤ total ∧ shownRows pagedSource [] [] 2 = some
      ([makeExplorerBlockBasic regularPackages (pagedData 1),
          makeExplorerBlockBasic regularPackages (pagedData 0)].take total ++
        List.replicate (total - 2) BlockBasic.new) :=
  (older_pages_cover served_mirror served_rooted paged_documented [] []).2 (by decide) 2

end Sample

end Hcexplorer.ExplorerPages
