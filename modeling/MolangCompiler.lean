import MolangCompiler.Proofs.Accounting
import MolangCompiler.Proofs.Automaton
import MolangCompiler.Proofs.Brackets
import MolangCompiler.Proofs.CallByValue
import MolangCompiler.Proofs.ContextValues
import MolangCompiler.Proofs.Excerpts
import MolangCompiler.Proofs.HostMap
import MolangCompiler.Proofs.Indentation
import MolangCompiler.Proofs.Invisible
import MolangCompiler.Proofs.Isolation
import MolangCompiler.Proofs.Operands
import MolangCompiler.Proofs.Powers
import MolangCompiler.Proofs.Precision
import MolangCompiler.Proofs.Preservation
import MolangCompiler.Proofs.Regions
import MolangCompiler.Proofs.SizedNames
import MolangCompiler.Proofs.Spelling
import MolangCompiler.Proofs.Unnoticed
import MolangCompiler.Proofs.Variables
import MolangCompiler.Scratch.Loans
