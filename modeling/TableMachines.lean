import TableMachines.Main
import TableMachines.Proofs.Analysis.Determinism
import TableMachines.Proofs.Analysis.Guarantees
import TableMachines.Proofs.Analysis.Unreachable
import TableMachines.Proofs.Automaton.Closing
import TableMachines.Proofs.Automaton.FirstMatch
import TableMachines.Proofs.Automaton.SameMembers
import TableMachines.Proofs.Catalog.BinaryIncrement
import TableMachines.Proofs.Catalog.EqualAbc
import TableMachines.Proofs.Catalog.FiniteLanguages
import TableMachines.Proofs.Catalog.Palindromes
import TableMachines.Proofs.Catalog.SimpleParser
import TableMachines.Proofs.CommandLine.Trace
import TableMachines.Proofs.Json.RoundTrip
import TableMachines.Proofs.Pushdown.Embedding
import TableMachines.Proofs.Pushdown.Ending
import TableMachines.Proofs.Subset.Order
import TableMachines.Proofs.Subset.Renaming
import TableMachines.Proofs.Transcripts
import TableMachines.Proofs.Turing.Translation
import TableMachines.Proofs.Turing.Window
